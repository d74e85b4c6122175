import Mathlib.Logic.Function.Basic
import QMdmm.Server.ConfigAccepted

namespace QMdmmServer

open QMdmmCore QMdmmNetworking
open LogicConfiguration (PunishHpRoundStrategy)

namespace Settings

inductive Instance where
  | Global
  | PerUser
  | Specified
  deriving DecidableEq, Repr

/-- In the specified instance alone, with the key as its group makes it. -/
def setValue (self : Settings) (key value : String) : Settings :=
  { self with specifiedConfig := Function.update self.specifiedConfig key (some value) }

/-- All that is specified, on top of what the instance holds; the specified one
itself fails an assertion. -/
def saveConfig (self : Settings) : Instance → Option Settings
  | .Global =>
    some { self with globalConfig := fun key => (self.specifiedConfig key).or (self.globalConfig key) }
  | .PerUser =>
    some { self with userConfig := fun key => (self.specifiedConfig key).or (self.userConfig key) }
  | .Specified => none

/-- The items of a group, one after the other. -/
def setValues (self : Settings) (group : String) (texts : List (String × String)) : Settings :=
  texts.foldl (fun setting text => setting.setValue (group ++ "/" ++ text.1) text.2) self

/-- What the next process finds: nothing specified, what the user has saved, and
whatever is global by then. -/
def restarted (self : Settings) (globalConfig : String → Option String) : Settings :=
  ⟨fun _ => none, self.userConfig, globalConfig⟩

end Settings

def boolToString (value : Bool) : String := if value then "on" else "off"

def intToString (value : Int) : String := toString value

def uint16ToString (value : Int) : String := toString value

def strategyNames : List (PunishHpRoundStrategy × String) :=
  [(.RoundDown, "RoundDown"), (.RoundToNearest45, "RoundToNearest45"), (.RoundUp, "RoundUp"),
    (.PlusOne, "PlusOne")]

def punishHpRoundStrategyToString (value : PunishHpRoundStrategy) : String :=
  ((strategyNames.find? fun strategy => strategy.1 = value).map Prod.snd).getD "RoundToNearest45"

namespace Config

/-- The server items, as they are saved. -/
def serverTexts (config : Config) : List (String × String) :=
  let values := config.serverConfiguration.values
  [("tcp", boolToString values.tcpEnabled),
    ("tcp-port", uint16ToString values.tcpPort),
    ("local", boolToString values.localEnabled),
    ("local-name", values.localSocketName),
    ("websocket", boolToString values.websocketEnabled),
    ("websocket-name", values.websocketName),
    ("websocket-port", uint16ToString values.websocketPort),
    ("control-port", uint16ToString values.controlPort),
    ("timeout", intToString values.requestTimeout),
    ("maximum-packet-size", intToString values.maximumPacketSize),
    ("sign-in-timeout", intToString values.signInTimeout),
    ("maximum-rooms", intToString values.maximumRooms),
    ("players", intToString values.playerNumPerRoom)]

/-- The logic items, as they are saved. -/
def logicTexts (config : Config) : List (String × String) :=
  let values := config.logicConfiguration.values
  [("slash", intToString values.initialKnifeDamage),
    ("maximum-slash", intToString values.maximumKnifeDamage),
    ("kick", intToString values.initialHorseDamage),
    ("maximum-kick", intToString values.maximumHorseDamage),
    ("maxhp", intToString values.initialMaxHp),
    ("maximum-maxhp", intToString values.maximumMaxHp),
    ("punish-hp-modifier", intToString values.punishHpModifier),
    ("punish-hp-round-strategy", punishHpRoundStrategyToString values.punishHpRoundStrategy),
    ("zero-hp-as-dead", boolToString values.zeroHpAsDead),
    ("enable-let-move", boolToString values.enableLetMove),
    ("can-buy-only-in-initial-city", boolToString values.canBuyOnlyInInitialCity)]

def save_ (config : Config) (setting : Settings) (toSave : Settings.Instance) : Option Settings :=
  let setting := setting.setValues "server" config.serverTexts
  let setting := setting.setValues "logic" config.logicTexts
  setting.saveConfig toSave

end Config

section Converters

variable (settingName valueName : String) {v : QJsonValue}

theorem boolItem_convert (h : ∃ b, v = .bool b) :
    (boolItem settingName valueName).convert (boolToString v.toBool) = some v := by
  obtain ⟨b, rfl⟩ := h
  cases b <;> rfl

theorem textItem_convert (h : ∃ s, v = .string s) :
    (textItem settingName valueName).convert v.toQString = some v := by
  obtain ⟨s, rfl⟩ := h
  rfl

theorem intItem_convert (h : ∃ n, FitsInt n ∧ v = .ofInt n) :
    (intItem settingName valueName).convert (intToString (v.toInt 0)) = some v := by
  obtain ⟨n, hfits, rfl⟩ := h
  rw [QJsonValue.toInt_ofInt hfits]
  simp only [intItem, stringToInt, intToString, QString.toInt_toString hfits, Option.map_some]

theorem portItem_convert (h : ∃ n, 0 ≤ n ∧ n ≤ 65535 ∧ v = .ofInt n) :
    (portItem settingName valueName).convert (uint16ToString (v.toInt 0 % 65536)) = some v := by
  obtain ⟨n, hlo, hhi, rfl⟩ := h
  obtain ⟨n, rfl⟩ := Int.eq_ofNat_of_zero_le hlo
  have hfits : FitsInt (n : Int) := ⟨by omega, by omega⟩
  have hmod : (n : Int) % 65536 = n := by omega
  have hread : QString.toUInt (toString (n : Int)) = some n := QString.toUInt_repr (by omega)
  have hsmall : ¬ n > 65535 := by omega
  rw [QJsonValue.toInt_ofInt hfits, hmod]
  simp only [portItem, stringToUint16, uint16ToString, hread, if_neg hsmall, Option.map_some]

/-- The four strategies by their names. -/
theorem strategyItem_convert (h : ∃ n, 0 ≤ n ∧ n ≤ 3 ∧ v = .ofInt n) :
    (strategyItem settingName valueName).convert
      (punishHpRoundStrategyToString (.ofInt (v.toInt 0))) = some v := by
  obtain ⟨n, hlo, hhi, rfl⟩ := h
  rw [QJsonValue.toInt_ofInt ⟨by omega, by omega⟩]
  obtain rfl | rfl | rfl | rfl : n = 0 ∨ n = 1 ∨ n = 2 ∨ n = 3 := by omega
  all_goals rfl

end Converters

namespace Settings

variable {setting : Settings} {group : String} {texts : List (String × String)}

@[simp] theorem setValue_self (setting : Settings) (key value : String) :
    (setting.setValue key value).specifiedConfig key = some value :=
  Function.update_self key _ _

theorem setValue_other {key other : String} (h : other ≠ key) (value : String) :
    (setting.setValue key value).specifiedConfig other = setting.specifiedConfig other :=
  Function.update_of_ne h _ _

theorem setValues_cons (setting : Settings) (group : String) (text : String × String)
    (rest : List (String × String)) :
    setting.setValues group (text :: rest) =
      (setting.setValue (group ++ "/" ++ text.1) text.2).setValues group rest := rfl

theorem setValues_other {key : String} (h : ∀ text ∈ texts, group ++ "/" ++ text.1 ≠ key) :
    (setting.setValues group texts).specifiedConfig key = setting.specifiedConfig key := by
  induction texts generalizing setting with
  | nil => rfl
  | cons text rest ih =>
    obtain ⟨hne, hrest⟩ := List.forall_mem_cons.mp h
    rw [setValues_cons, ih hrest, setValue_other (Ne.symm hne)]

/-- Each item of a group is found again. -/
theorem setValues_specified (hnodup : (texts.map Prod.fst).Nodup) {text : String × String}
    (htext : text ∈ texts) :
    (setting.setValues group texts).specifiedConfig (group ++ "/" ++ text.1) = some text.2 := by
  induction texts generalizing setting with
  | nil => cases htext
  | cons first rest ih =>
    obtain ⟨hfirst, hrest⟩ := List.nodup_cons.mp hnodup
    rw [setValues_cons]
    obtain rfl | htext := List.mem_cons.mp htext
    · have hother : ∀ other ∈ rest, group ++ "/" ++ other.1 ≠ group ++ "/" ++ text.1 := by
        intro other hother hsame
        rw [String.append_right_inj] at hsame
        exact hfirst (hsame ▸ List.mem_map_of_mem hother)
      rw [setValues_other hother, setValue_self]
    · exact ih hrest htext

end Settings

namespace Item

variable {source : Source}

/-- A group whose items all have a text that can be read is read, to what the texts say. -/
theorem foldlM_read_texts {items : List Item} (ob : QJsonObject)
    (hnodup : (items.map valueName).Nodup) (value : String → QJsonValue)
    (htexts : ∀ item ∈ items, ∃ text origin, source.text item.settingName = some (text, origin) ∧
      item.convert text = some (value item.valueName)) :
    ∃ ob', items.foldlM (read source) ob = .ok ob' ∧
      ∀ item ∈ items, ob'.contains item.valueName = true ∧
        ob'.value item.valueName = value item.valueName := by
  have hexists : ∃ ob', items.foldlM (read source) ob = .ok ob' := by
    clear hnodup
    induction items generalizing ob with
    | nil => exact ⟨ob, rfl⟩
    | cons item rest ih =>
      obtain ⟨⟨text, origin, htext, hconvert⟩, hrest⟩ := List.forall_mem_cons.mp htexts
      have hitem : item.read source ob = .ok (ob.insert item.valueName (value item.valueName)) := by
        rw [read, htext]
        simp only [hconvert]
      obtain ⟨ob', hread⟩ := ih (ob.insert item.valueName (value item.valueName)) hrest
      rw [List.foldlM_cons, hitem]
      exact ⟨ob', hread⟩
  obtain ⟨ob', hread⟩ := hexists
  refine ⟨ob', hread, fun item hitem => ?_⟩
  obtain ⟨text, origin, htext, hconvert⟩ := htexts item hitem
  obtain ⟨hnone, -⟩ | ⟨text', origin', v, htext', hconvert', hcontains, hvalue⟩ :=
    foldlM_read hnodup hitem hread
  · rw [htext] at hnone
    cases hnone
  · rw [htext] at htext'
    cases htext'
    rw [hconvert] at hconvert'
    cases hconvert'
    exact ⟨hcontains, hvalue⟩

end Item

theorem StoresInt.exists_fits {ob : QJsonObject} {key : String}
    (h : StoresInt (-2147483648) 2147483647 ob key) (hpresent : ob.contains key = true) :
    ∃ n, FitsInt n ∧ ob.value key = .ofInt n := by
  obtain ⟨n, hlo, hhi, hvalue⟩ := h hpresent
  exact ⟨n, ⟨hlo, hhi⟩, hvalue⟩

/-- Without a short form, the room size is read like any other item. -/
theorem readPlayers_of_text {source : Source} {text origin : String} {v : QJsonValue}
    (hshort : readShortForms source.parser = .ok 0)
    (htext : source.text playersItem.settingName = some (text, origin))
    (hconvert : playersItem.convert text = some v) (ob : QJsonObject) :
    readPlayers source ob = .ok (ob.insert "playerNumPerRoom" v) := by
  have hitem : playersItem.read source ob = .ok (ob.insert "playerNumPerRoom" v) := by
    rw [Item.read, htext]
    simp only [hconvert]
    rfl
  rw [readPlayers, hshort, Except.ok_bind, if_neg (not_not.mpr rfl), hitem]

namespace Config

variable {setting : Settings} {parser : QCommandLineParser} {config : Config}

/-- The names the items of a group are saved under. -/
def serverNames : List String := serverItems.map Item.settingName ++ [playersItem.settingName]

def logicNames : List String := logicItems.map Item.settingName

/-- Both lists of items name the same settings. -/
theorem serverTexts_names (config : Config) : config.serverTexts.map Prod.fst = serverNames := rfl

theorem logicTexts_names (config : Config) : config.logicTexts.map Prod.fst = logicNames := rfl

/-- What a process that starts after the save finds under the name of an item. -/
theorem text_saved {saved : Settings} {globalConfig : String → Option String} {group : String}
    {text : String × String} (h : saved.userConfig (group ++ "/" ++ text.1) = some text.2) :
    Source.text ⟨options [], saved.restarted globalConfig, group, false⟩ text.1 =
      some (text.2, "config file") := by
  have hunset : (options []).isSet text.1 = false := rfl
  simp [Source.text, hunset, Settings.contains, Settings.value, Settings.restarted, h]

theorem exists_saved (config : Config) (setting : Settings) :
    ∃ saved, config.save_ setting .PerUser = some saved ∧
      (∀ text ∈ config.serverTexts, saved.userConfig ("server" ++ "/" ++ text.1) = some text.2) ∧
      ∀ text ∈ config.logicTexts, saved.userConfig ("logic" ++ "/" ++ text.1) = some text.2 := by
  refine ⟨_, rfl, fun text htext => ?_, fun text htext => ?_⟩
  · have hapart : ∀ server ∈ serverNames, ∀ logic ∈ logicNames,
        "logic" ++ "/" ++ logic ≠ "server" ++ "/" ++ server := by decide
    have hserver : text.1 ∈ serverNames := by
      rw [← serverTexts_names config]
      exact List.mem_map_of_mem htext
    have hnodup : (config.serverTexts.map Prod.fst).Nodup := by
      rw [serverTexts_names]
      decide
    change Option.or _ _ = _
    rw [Settings.setValues_other, Settings.setValues_specified hnodup htext, Option.some_or]
    intro logic hlogic
    apply hapart text.1 hserver
    rw [← logicTexts_names config]
    exact List.mem_map_of_mem hlogic
  · have hnodup : (config.logicTexts.map Prod.fst).Nodup := by
      rw [logicTexts_names]
      decide
    change Option.or _ _ = _
    rw [Settings.setValues_specified hnodup htext, Option.some_or]

/-- What holds of a stored member and of its default holds of what the getter reads. -/
theorem member_of_stored (conf : ServerConfiguration) (key : String) {P : QJsonValue → Prop}
    (hstored : conf.object.contains key = true → P (conf.object.value key))
    (hdefault : P (ServerConfiguration.defaults.object.value key)) : P (conf.member key) := by
  rw [ServerConfiguration.member]
  split
  · next hpresent => exact hstored hpresent
  · exact hdefault

theorem rule_of_stored (conf : LogicConfiguration) (key : String) {P : QJsonValue → Prop}
    (hstored : conf.object.contains key = true → P (conf.object.value key))
    (hdefault : P (LogicConfiguration.defaults.object.value key)) : P (conf.member key) := by
  rw [LogicConfiguration.member]
  split
  · next hpresent => exact hstored hpresent
  · exact hdefault

/-- Every server item is saved as a text that is read back to what its getter reads. -/
theorem Stages.server_converts {ob : QJsonObject} (h : Stages setting parser config ob) :
    ∀ item ∈ serverItems ++ [playersItem], ∃ text, (item.settingName, text) ∈ config.serverTexts ∧
      item.convert text = some (config.serverConfiguration.member item.valueName) := by
  have hplayers := h.players
  have hread := h.server
  have hother {key : String} {P : QJsonValue → Prop} (hkey : "playerNumPerRoom" ≠ key)
      (hstored : ob.contains key = true → P (ob.value key))
      (hdefault : P (ServerConfiguration.defaults.object.value key)) :
      P (config.serverConfiguration.member key) := by
    apply member_of_stored _ _ _ hdefault
    obtain ⟨hcontains, hvalue⟩ := readPlayers_other hplayers hkey
    rw [hcontains, hvalue]
    exact hstored
  have hbool (settingName key : String) (hitem : boolItem settingName key ∈ serverItems)
      (hkey : "playerNumPerRoom" ≠ key)
      (hdefault : ∃ b, ServerConfiguration.defaults.object.value key = .bool b) :=
    boolItem_convert settingName key
      (hother (P := fun v => ∃ b, v = .bool b) hkey
        (bool_stored serverItems_nodup hitem hread fun hpresent => by cases hpresent) hdefault)
  have htext (settingName key : String) (hitem : textItem settingName key ∈ serverItems)
      (hkey : "playerNumPerRoom" ≠ key)
      (hdefault : ∃ s, ServerConfiguration.defaults.object.value key = .string s) :=
    textItem_convert settingName key
      (hother (P := fun v => ∃ s, v = .string s) hkey
        (text_stored serverItems_nodup hitem hread fun hpresent => by cases hpresent) hdefault)
  have hport (settingName key : String) (hitem : portItem settingName key ∈ serverItems)
      (hkey : "playerNumPerRoom" ≠ key)
      (hdefault : ∃ n, 0 ≤ n ∧ n ≤ 65535 ∧
        ServerConfiguration.defaults.object.value key = .ofInt n) := by
    apply portItem_convert settingName key
    apply hother (P := fun v => ∃ n, 0 ≤ n ∧ n ≤ 65535 ∧ v = .ofInt n) hkey _ hdefault
    intro hpresent
    obtain ⟨-, hnone⟩ | ⟨n, -, hlo, hhi, -, hvalue⟩ := port_stored serverItems_nodup hitem hread rfl
    · rw [hnone] at hpresent
      cases hpresent
    · exact ⟨n, hlo, hhi, hvalue⟩
  have hint (settingName key : String) (hitem : intItem settingName key ∈ serverItems)
      (hkey : "playerNumPerRoom" ≠ key)
      (hdefault : ∃ n, FitsInt n ∧ ServerConfiguration.defaults.object.value key = .ofInt n) :=
    intItem_convert settingName key
      (hother (P := fun v => ∃ n, FitsInt n ∧ v = .ofInt n) hkey
        (StoresInt.exists_fits (storesInt_server settingName key hitem hread)) hdefault)
  have hroom := intItem_convert "players" "playerNumPerRoom"
    (member_of_stored config.serverConfiguration "playerNumPerRoom"
      (P := fun v => ∃ n, FitsInt n ∧ v = .ofInt n)
      (StoresInt.exists_fits (storesInt_players hread hplayers)) ⟨3, by decide, rfl⟩)
  simp only [serverItems, List.cons_append, List.nil_append, List.forall_mem_cons,
    List.not_mem_nil, false_implies, implies_true, and_true]
  refine ⟨⟨_, ?_, hbool _ _ ?_ ?_ ⟨_, rfl⟩⟩, ⟨_, ?_, hport _ _ ?_ ?_ ⟨6366, ?_, ?_, rfl⟩⟩,
    ⟨_, ?_, hbool _ _ ?_ ?_ ⟨_, rfl⟩⟩, ⟨_, ?_, htext _ _ ?_ ?_ ⟨_, rfl⟩⟩,
    ⟨_, ?_, hbool _ _ ?_ ?_ ⟨_, rfl⟩⟩, ⟨_, ?_, htext _ _ ?_ ?_ ⟨_, rfl⟩⟩,
    ⟨_, ?_, hport _ _ ?_ ?_ ⟨6367, ?_, ?_, rfl⟩⟩, ⟨_, ?_, hport _ _ ?_ ?_ ⟨0, ?_, ?_, rfl⟩⟩,
    ⟨_, ?_, hint _ _ ?_ ?_ ⟨20, ?_, rfl⟩⟩, ⟨_, ?_, hint _ _ ?_ ?_ ⟨1048576, ?_, rfl⟩⟩,
    ⟨_, ?_, hint _ _ ?_ ?_ ⟨5, ?_, rfl⟩⟩, ⟨_, ?_, hint _ _ ?_ ?_ ⟨0, ?_, rfl⟩⟩, ⟨_, ?_, hroom⟩⟩
  all_goals
    first
    | decide
    | simp [serverItems, serverTexts, ServerConfiguration.values, ServerConfiguration.intMember,
        ServerConfiguration.portMember, boolItem, portItem, intItem, textItem, playersItem]

/-- And so is every logic item. -/
theorem Stages.logic_converts {ob : QJsonObject} (h : Stages setting parser config ob) :
    ∀ item ∈ logicItems, ∃ text, (item.settingName, text) ∈ config.logicTexts ∧
      item.convert text = some (config.logicConfiguration.member item.valueName) := by
  have hread := h.rules
  obtain ⟨hpresetInts, hpresetStrategy⟩ := storesInt_presets (parser.isSet "1")
  have hpresetBools := storesBool_presets (parser.isSet "1")
  have hint (settingName key : String) (hitem : intItem settingName key ∈ logicItems)
      (hkey : key ∈ LogicConfiguration.intKeys)
      (hdefault : ∃ n, FitsInt n ∧ LogicConfiguration.defaults.object.value key = .ofInt n) :=
    intItem_convert settingName key
      (rule_of_stored config.logicConfiguration key (P := fun v => ∃ n, FitsInt n ∧ v = .ofInt n)
        (StoresInt.exists_fits (int_stored logicItems_nodup hitem hread (hpresetInts key hkey)))
        hdefault)
  have hbool (settingName key : String) (hitem : boolItem settingName key ∈ logicItems)
      (hkey : key ∈ LogicConfiguration.boolKeys)
      (hdefault : ∃ b, LogicConfiguration.defaults.object.value key = .bool b) :=
    boolItem_convert settingName key
      (rule_of_stored config.logicConfiguration key (P := fun v => ∃ b, v = .bool b)
        (bool_stored logicItems_nodup hitem hread (hpresetBools key hkey)) hdefault)
  have hstrategyItem :
      strategyItem "punish-hp-round-strategy" "punishHpRoundStrategy" ∈ logicItems := by
    simp [logicItems]
  have hstrategy := strategyItem_convert "punish-hp-round-strategy" "punishHpRoundStrategy"
    (rule_of_stored config.logicConfiguration "punishHpRoundStrategy"
      (P := fun v => ∃ n, 0 ≤ n ∧ n ≤ 3 ∧ v = .ofInt n)
      (strategy_stored logicItems_nodup hstrategyItem hread hpresetStrategy)
      ⟨1, by decide, by decide, rfl⟩)
  simp only [logicItems, List.forall_mem_cons, List.not_mem_nil, false_implies, implies_true,
    and_true]
  refine ⟨⟨_, ?_, hint _ _ ?_ ?_ ⟨1, ?_, rfl⟩⟩, ⟨_, ?_, hint _ _ ?_ ?_ ⟨10, ?_, rfl⟩⟩,
    ⟨_, ?_, hint _ _ ?_ ?_ ⟨2, ?_, rfl⟩⟩, ⟨_, ?_, hint _ _ ?_ ?_ ⟨10, ?_, rfl⟩⟩,
    ⟨_, ?_, hint _ _ ?_ ?_ ⟨10, ?_, rfl⟩⟩, ⟨_, ?_, hint _ _ ?_ ?_ ⟨20, ?_, rfl⟩⟩,
    ⟨_, ?_, hint _ _ ?_ ?_ ⟨2, ?_, rfl⟩⟩, ⟨_, ?_, hstrategy⟩,
    ⟨_, ?_, hbool _ _ ?_ ?_ ⟨_, rfl⟩⟩, ⟨_, ?_, hbool _ _ ?_ ?_ ⟨_, rfl⟩⟩,
    ⟨_, ?_, hbool _ _ ?_ ?_ ⟨_, rfl⟩⟩⟩
  all_goals
    first
    | decide
    | simp [logicItems, logicTexts, LogicConfiguration.values, LogicConfiguration.initialKnifeDamage,
        LogicConfiguration.maximumKnifeDamage, LogicConfiguration.initialHorseDamage,
        LogicConfiguration.maximumHorseDamage, LogicConfiguration.initialMaxHp,
        LogicConfiguration.maximumMaxHp, LogicConfiguration.punishHpModifier,
        LogicConfiguration.punishHpRoundStrategy, LogicConfiguration.zeroHpAsDead,
        LogicConfiguration.enableLetMove, LogicConfiguration.canBuyOnlyInInitialCity,
        LogicConfiguration.intMember, LogicConfiguration.boolMember, boolItem, intItem,
        strategyItem]

/-- The checks only see the values. -/
theorem Checked.of_values {server server' : ServerConfiguration}
    {rules rules' : LogicConfiguration} (h : Checked server rules)
    (hserver : server'.values = server.values) (hrules : rules'.values = rules.values) :
    Checked server' rules' := by
  have hknife : rules'.initialKnifeDamage = rules.initialKnifeDamage :=
    congrArg LogicConfiguration.Values.initialKnifeDamage hrules
  have hmaximumKnife : rules'.maximumKnifeDamage = rules.maximumKnifeDamage :=
    congrArg LogicConfiguration.Values.maximumKnifeDamage hrules
  have hhorse : rules'.initialHorseDamage = rules.initialHorseDamage :=
    congrArg LogicConfiguration.Values.initialHorseDamage hrules
  have hmaximumHorse : rules'.maximumHorseDamage = rules.maximumHorseDamage :=
    congrArg LogicConfiguration.Values.maximumHorseDamage hrules
  have hmaxHp : rules'.initialMaxHp = rules.initialMaxHp :=
    congrArg LogicConfiguration.Values.initialMaxHp hrules
  have hmaximumMaxHp : rules'.maximumMaxHp = rules.maximumMaxHp :=
    congrArg LogicConfiguration.Values.maximumMaxHp hrules
  have hpunish : rules'.punishHpModifier = rules.punishHpModifier :=
    congrArg LogicConfiguration.Values.punishHpModifier hrules
  obtain ⟨⟨hroom, htimeout, hpacket, hsignIn, hrooms⟩, hranges, hcrosses, hmodifier⟩ := h
  rw [← hserver] at hroom htimeout hpacket hsignIn hrooms
  rw [← hpunish] at hmodifier
  refine ⟨⟨hroom, htimeout, hpacket, hsignIn, hrooms⟩, ?_, ?_, hmodifier⟩
  · rwa [rangeChecks, hknife, hmaximumKnife, hhorse, hmaximumHorse, hmaxHp, hmaximumMaxHp]
  · rwa [crossChecks, hknife, hmaximumKnife, hhorse, hmaximumHorse, hmaxHp, hmaximumMaxHp]

/-- A start with no options, from what a run has saved for the user and whatever the global
scope holds, resolves every item as that run did. -/
theorem read_saved (hread : read_ setting parser = .ok config)
    (globalConfig : String → Option String) :
    ∃ saved config', config.save_ setting .PerUser = some saved ∧
      read_ (saved.restarted globalConfig) (options []) = .ok config' ∧
      config'.serverConfiguration.values = config.serverConfiguration.values ∧
      config'.logicConfiguration.values = config.logicConfiguration.values := by
  obtain ⟨ob, hstages⟩ := stages_of_read hread
  obtain ⟨-, -, -, hchecked⟩ := read_eq_ok.mp hread
  obtain ⟨saved, hsaved, hserverTexts, hlogicTexts⟩ := config.exists_saved setting
  have hserver : ∀ item ∈ serverItems ++ [playersItem], ∃ text origin,
      (serverSource (saved.restarted globalConfig) (options [])).text item.settingName =
          some (text, origin) ∧
        item.convert text = some (config.serverConfiguration.member item.valueName) := by
    intro item hitem
    obtain ⟨text, htext, hconvert⟩ := hstages.server_converts item hitem
    exact ⟨text, _, text_saved (hserverTexts _ htext), hconvert⟩
  have hlogic : ∀ item ∈ logicItems, ∃ text origin,
      (logicSource (saved.restarted globalConfig) (options [])).text item.settingName =
          some (text, origin) ∧
        item.convert text = some (config.logicConfiguration.member item.valueName) := by
    intro item hitem
    obtain ⟨text, htext, hconvert⟩ := hstages.logic_converts item hitem
    exact ⟨text, _, text_saved (hlogicTexts _ htext), hconvert⟩
  obtain ⟨server, hserverRead, hserverValue⟩ := Item.foldlM_read_texts [] serverItems_nodup
    config.serverConfiguration.member fun item hitem => hserver item (List.mem_append_left _ hitem)
  obtain ⟨rules, hrulesRead, hrulesValue⟩ := Item.foldlM_read_texts [] logicItems_nodup
    config.logicConfiguration.member hlogic
  obtain ⟨text, origin, htext, hconvert⟩ :=
    hserver playersItem (List.mem_append_right _ List.mem_cons_self)
  have hplayers := readPlayers_of_text rfl htext hconvert server
  have hserverValues : ServerConfiguration.values ⟨server.insert "playerNumPerRoom"
      (config.serverConfiguration.member "playerNumPerRoom")⟩ =
      config.serverConfiguration.values := by
    have hkeys : ∀ field ∈ ServerConfiguration.fields, field.1 = "playerNumPerRoom" ∨
        ∃ item ∈ serverItems, item.valueName = field.1 := by decide
    apply ServerConfiguration.values_eq
    intro field hfield
    by_cases hroom : field.1 = "playerNumPerRoom"
    · simp [ServerConfiguration.member, hroom]
    · obtain hroom' | ⟨item, hitem, hkey⟩ := hkeys field hfield
      · exact absurd hroom' hroom
      · obtain ⟨hcontains, hvalue⟩ := hserverValue item hitem
        rw [hkey] at hcontains hvalue
        rw [ServerConfiguration.member, QJsonObject.contains_insert, QJsonObject.value_insert]
        simp [Ne.symm hroom, hcontains, hvalue]
  have hrulesValues : LogicConfiguration.values ⟨rules⟩ = config.logicConfiguration.values := by
    have hkeys : ∀ key ∈ LogicConfiguration.intKeys ++ LogicConfiguration.boolKeys,
        ∃ item ∈ logicItems, item.valueName = key := by decide
    apply LogicConfiguration.SameMembers.values_eq
    intro key hkey
    obtain ⟨item, hitem, rfl⟩ := hkeys key hkey
    obtain ⟨hcontains, hvalue⟩ := hrulesValue item hitem
    rw [LogicConfiguration.member, if_pos hcontains]
    exact hvalue
  exact ⟨saved, ⟨⟨_⟩, ⟨rules⟩, .Off⟩, hsaved,
    read_eq_ok.mpr ⟨rfl, ⟨server, hserverRead, hplayers⟩, hrulesRead,
      hchecked.of_values hserverValues hrulesValues⟩, hserverValues, hrulesValues⟩

/-- A server for five with another port and the presets, saved and started again while the
global scope asks for a sixth. -/
theorem read_saved_five :
    ∃ config saved config',
      read_ unset (options [("5", ""), ("tcp-port", "7000"), ("1", "")]) = .ok config ∧
      config.save_ unset .PerUser = some saved ∧
      read_ (saved.restarted fun key => if key = "server/players" then some "6" else none)
          (options []) = .ok config' ∧
        config'.serverConfiguration.values = config.serverConfiguration.values ∧
        config'.logicConfiguration.values = config.logicConfiguration.values := by
  have hread : read_ unset (options [("5", ""), ("tcp-port", "7000"), ("1", "")]) =
      .ok ⟨⟨[("playerNumPerRoom", .ofInt 5), ("tcpPort", .ofInt 7000)]⟩, .v1, .Off⟩ := by rfl
  obtain ⟨saved, config', hsaved⟩ := read_saved hread
    fun key => if key = "server/players" then some "6" else none
  exact ⟨_, saved, config', hread, hsaved⟩

end Config

end QMdmmServer
