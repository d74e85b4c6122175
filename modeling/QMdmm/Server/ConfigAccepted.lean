import QMdmm.Server.Config

namespace QMdmmServer

open QMdmmCore QMdmmNetworking

theorem reject_eq_ok {bad : Prop} [Decidable bad] {message : String} {u : Unit} :
    reject bad message = .ok u ↔ ¬ bad := by
  unfold reject
  split <;> simp [*]

theorem forM_eq_ok {α : Type} {checks : List α} {check : α → Except String Unit} {u : Unit} :
    checks.forM check = .ok u ↔ ∀ a ∈ checks, check a = .ok () := by
  induction checks with
  | nil => simp
  | cons a rest ih =>
    change (check a >>= fun _ => rest.forM check) = .ok u ↔ _
    rw [Except.bind_eq_ok, List.forall_mem_cons]
    constructor
    · rintro ⟨_, ha, hrest⟩
      exact ⟨ha, ih.mp hrest⟩
    · rintro ⟨ha, hrest⟩
      exact ⟨(), ha, ih.mpr hrest⟩

theorem stringToUint16_bounds {s : String} {n : Int} (hport : stringToUint16 s = some n) :
    0 ≤ n ∧ n ≤ 65535 := by
  unfold stringToUint16 at hport
  split at hport
  · cases hport
  · split at hport
    · cases hport
    · cases hport
      omega

namespace Item

variable {source : Source} {ob ob' : QJsonObject} {item : Item}

/-- An item either leaves the object alone or stores what its text is converted to. -/
theorem read_cases (hread : item.read source ob = .ok ob') :
    (source.text item.settingName = none ∧ ob' = ob) ∨
      ∃ s origin v, source.text item.settingName = some (s, origin) ∧ item.convert s = some v ∧
        ob' = ob.insert item.valueName v := by
  unfold Item.read at hread
  split at hread
  · next htext =>
    cases hread
    exact .inl ⟨htext, rfl⟩
  · next s origin htext =>
    split at hread
    · next v hconvert =>
      cases hread
      exact .inr ⟨s, origin, v, htext, hconvert, rfl⟩
    · cases hread

/-- Reading other items leaves a member alone. -/
theorem foldlM_read_other {items : List Item} {key : String}
    (hkey : key ∉ items.map Item.valueName) (hread : items.foldlM (read source) ob = .ok ob') :
    ob'.contains key = ob.contains key ∧ ob'.value key = ob.value key := by
  induction items generalizing ob with
  | nil =>
    cases hread
    exact ⟨rfl, rfl⟩
  | cons item rest ih =>
    rw [List.map_cons, List.mem_cons, not_or] at hkey
    rw [List.foldlM_cons] at hread
    obtain ⟨next, hitem, hrest⟩ := Except.bind_eq_ok.mp hread
    obtain ⟨hcontains, hvalue⟩ := ih hkey.2 hrest
    rw [hcontains, hvalue]
    obtain ⟨_, rfl⟩ | ⟨_, _, v, _, _, rfl⟩ := read_cases hitem
    · exact ⟨rfl, rfl⟩
    · simp [Ne.symm hkey.1]

/-- The one item of a member decides what becomes of it. -/
theorem foldlM_read {items : List Item} (hnodup : (items.map valueName).Nodup)
    (hitem : item ∈ items) (hread : items.foldlM (read source) ob = .ok ob') :
    (source.text item.settingName = none ∧
        ob'.contains item.valueName = ob.contains item.valueName ∧
        ob'.value item.valueName = ob.value item.valueName) ∨
      ∃ s origin v, source.text item.settingName = some (s, origin) ∧ item.convert s = some v ∧
        ob'.contains item.valueName = true ∧ ob'.value item.valueName = v := by
  induction items generalizing ob with
  | nil => cases hitem
  | cons head rest ih =>
    obtain ⟨hhead, hrest⟩ := List.nodup_cons.mp hnodup
    rw [List.foldlM_cons] at hread
    obtain ⟨next, hnext, hafter⟩ := Except.bind_eq_ok.mp hread
    rcases List.mem_cons.mp hitem with rfl | hitem
    · obtain ⟨hcontains, hvalue⟩ := foldlM_read_other hhead hafter
      rw [hcontains, hvalue]
      obtain ⟨htext, rfl⟩ | ⟨s, origin, v, htext, hconvert, rfl⟩ := read_cases hnext
      · exact .inl ⟨htext, rfl, rfl⟩
      · exact .inr ⟨s, origin, v, htext, hconvert, by simp, by simp⟩
    · have hne : head.valueName ≠ item.valueName :=
        fun heq => hhead (heq ▸ List.mem_map_of_mem hitem)
      have hsame : next.contains item.valueName = ob.contains item.valueName ∧
          next.value item.valueName = ob.value item.valueName := by
        obtain ⟨_, rfl⟩ | ⟨_, _, v, _, _, rfl⟩ := read_cases hnext
        · exact ⟨rfl, rfl⟩
        · simp [hne]
      rw [← hsame.1, ← hsame.2]
      exact ih hrest hitem hafter

/-- What is stored was so before, or is what a text can be converted to. -/
theorem foldlM_read_stored {items : List Item} (hnodup : (items.map valueName).Nodup)
    (hitem : item ∈ items) (hread : items.foldlM (read source) ob = .ok ob')
    {P : QJsonValue → Prop}
    (hbase : ob.contains item.valueName = true → P (ob.value item.valueName))
    (hconvert : ∀ s v, item.convert s = some v → P v) (hpresent : ob'.contains item.valueName = true) :
    P (ob'.value item.valueName) := by
  obtain ⟨-, hcontains, hvalue⟩ | ⟨s, origin, v, -, hv, -, hvalue⟩ :=
    foldlM_read hnodup hitem hread
  · rw [hvalue]
    exact hbase (hcontains ▸ hpresent)
  · rw [hvalue]
    exact hconvert s v hv

end Item

/-- The port an item names. -/
def Source.port (source : Source) (settingName : String) : Option Int :=
  (source.text settingName).bind fun text => stringToUint16 text.1

/-- A member that is present is a number of a range. -/
def StoresInt (lo hi : Int) (ob : QJsonObject) (key : String) : Prop :=
  ob.contains key = true → ∃ n, lo ≤ n ∧ n ≤ hi ∧ ob.value key = .ofInt n

variable {source : Source} {ob ob' : QJsonObject} {key : String} {lo hi : Int}

theorem storesInt_insert {n : Int} (hlo : lo ≤ n) (hhi : n ≤ hi) :
    StoresInt lo hi (ob.insert key (.ofInt n)) key :=
  fun _ => ⟨n, hlo, hhi, by simp⟩

section ReadShortForms

theorem readShortForms_fits {parser : QCommandLineParser} {players : Int}
    (hread : readShortForms parser = .ok players) : FitsInt players := by
  have hfold (list : List (String × Int)) (hlist : ∀ shortForm ∈ list, FitsInt shortForm.2)
      (init : Int) (hinit : FitsInt init)
      (hread : list.foldlM (fun players shortForm =>
        if parser.isSet shortForm.1 then
          if players = 0 then .ok shortForm.2
          else .error ("-" ++ toString shortForm.2 ++ " can't be specified along with -" ++
            toString players)
        else .ok players) init = (Except.ok players : Except String Int)) : FitsInt players := by
    induction list generalizing init with
    | nil =>
      cases hread
      exact hinit
    | cons shortForm rest ih =>
      obtain ⟨hhead, hrest⟩ := List.forall_mem_cons.mp hlist
      rw [List.foldlM_cons] at hread
      obtain ⟨next, hnext, hafter⟩ := Except.bind_eq_ok.mp hread
      refine ih hrest next ?_ hafter
      split_ifs at hnext <;> cases hnext <;> assumption
  exact hfold shortForms (by decide) 0 (by decide) hread

/-- The room size is the only member that is touched. -/
theorem readPlayers_cases (hread : readPlayers source ob = .ok ob') :
    ob' = ob ∨ ∃ n, FitsInt n ∧ ob' = ob.insert "playerNumPerRoom" (.ofInt n) := by
  unfold readPlayers at hread
  obtain ⟨players, hshort, hread⟩ := Except.bind_eq_ok.mp hread
  split at hread
  · obtain ⟨_, _, hread⟩ := Except.bind_eq_ok.mp hread
    cases hread
    exact .inr ⟨players, readShortForms_fits hshort, rfl⟩
  · obtain ⟨-, rfl⟩ | ⟨s, _, v, -, hconvert, rfl⟩ := Item.read_cases hread
    · exact .inl rfl
    · obtain ⟨n, hn, rfl⟩ := Option.map_eq_some_iff.mp hconvert
      exact .inr ⟨n, QString.fitsInt_of_toInt hn, rfl⟩

end ReadShortForms

/-- What the getter of a number that is present returns. -/
theorem StoresInt.intMember_eq (h : StoresInt (-2147483648) 2147483647 ob key)
    (hpresent : ob.contains key = true) :
    ob.value key = .ofInt (ServerConfiguration.intMember ⟨ob⟩ key) := by
  obtain ⟨n, hlo, hhi, hvalue⟩ := h hpresent
  have hmember : ServerConfiguration.intMember ⟨ob⟩ key = n := by
    rw [ServerConfiguration.intMember, ServerConfiguration.member, if_pos hpresent, hvalue,
      QJsonValue.toInt_ofInt ⟨hlo, hhi⟩]
  rw [hmember, hvalue]

theorem confInt_ofInt {legal : Int → Bool} {n : Int} (hlo : 0 ≤ n) (hhi : n ≤ intMax)
    (hlegal : legal n = true) :
    ServerConfiguration.confInt legal (.ofInt n) = some (.ofInt n) := by
  rw [ServerConfiguration.confInt, LogicConfiguration.parseNonNegativeInt_ofInt hlo hhi,
    Option.filter_some, if_pos hlegal, Option.map_some]

/-- A number whose getter returns a legal one is taken over. -/
theorem StoresInt.confInt (h : StoresInt (-2147483648) 2147483647 ob key)
    {legal : Int → Bool} (hlo : 0 ≤ ServerConfiguration.intMember ⟨ob⟩ key)
    (hlegal : legal (ServerConfiguration.intMember ⟨ob⟩ key) = true)
    (hpresent : ob.contains key = true) :
    ServerConfiguration.confInt legal (ob.value key) = some (ob.value key) := by
  rw [h.intMember_eq hpresent]
  refine confInt_ofInt hlo ?_ hlegal
  exact (QJsonValue.fitsInt_toInt _).2

section Stored

variable {items : List Item} {settingName : String}

theorem bool_stored (hnodup : (items.map Item.valueName).Nodup)
    (hitem : boolItem settingName key ∈ items)
    (hread : items.foldlM (Item.read source) ob = .ok ob')
    (hbase : ob.contains key = true → ∃ b, ob.value key = .bool b) (hpresent : ob'.contains key = true) :
    ∃ b, ob'.value key = .bool b := by
  refine Item.foldlM_read_stored (P := fun v => ∃ b, v = .bool b) hnodup hitem hread hbase
    (fun s v hconvert => ?_) hpresent
  obtain ⟨b, -, rfl⟩ := Option.map_eq_some_iff.mp hconvert
  exact ⟨b, rfl⟩

theorem text_stored (hnodup : (items.map Item.valueName).Nodup)
    (hitem : textItem settingName key ∈ items)
    (hread : items.foldlM (Item.read source) ob = .ok ob')
    (hbase : ob.contains key = true → ∃ s, ob.value key = .string s)
    (hpresent : ob'.contains key = true) : ∃ s, ob'.value key = .string s := by
  refine Item.foldlM_read_stored (P := fun v => ∃ s, v = .string s) hnodup hitem hread hbase
    (fun s v hconvert => ?_) hpresent
  cases hconvert
  exact ⟨s, rfl⟩

theorem int_stored (hnodup : (items.map Item.valueName).Nodup)
    (hitem : intItem settingName key ∈ items)
    (hread : items.foldlM (Item.read source) ob = .ok ob')
    (hbase : StoresInt (-2147483648) 2147483647 ob key) :
    StoresInt (-2147483648) 2147483647 ob' key := by
  refine Item.foldlM_read_stored (P := fun v => ∃ n, _ ≤ n ∧ n ≤ _ ∧ v = .ofInt n) hnodup hitem
    hread hbase fun s v hconvert => ?_
  obtain ⟨n, hn, rfl⟩ := Option.map_eq_some_iff.mp hconvert
  obtain ⟨hlo, hhi⟩ := QString.fitsInt_of_toInt hn
  exact ⟨n, hlo, hhi, rfl⟩

theorem strategy_stored (hnodup : (items.map Item.valueName).Nodup)
    (hitem : strategyItem settingName key ∈ items)
    (hread : items.foldlM (Item.read source) ob = .ok ob') (hbase : StoresInt 0 3 ob key) :
    StoresInt 0 3 ob' key := by
  refine Item.foldlM_read_stored (P := fun v => ∃ n, _ ≤ n ∧ n ≤ _ ∧ v = .ofInt n) hnodup hitem
    hread hbase fun s v hconvert => ?_
  obtain ⟨n, hn, rfl⟩ := Option.map_eq_some_iff.mp hconvert
  obtain ⟨strategy, hfind, rfl⟩ := Option.map_eq_some_iff.mp hn
  have hrange : ∀ strategy ∈ strategyHash, 0 ≤ strategy.2 ∧ strategy.2 ≤ 3 := by decide
  obtain ⟨hlo, hhi⟩ := hrange strategy (List.mem_of_find?_eq_some hfind)
  exact ⟨_, hlo, hhi, rfl⟩

/-- A port is stored as the number that it is named by, and never without one. -/
theorem port_stored (hnodup : (items.map Item.valueName).Nodup)
    (hitem : portItem settingName key ∈ items)
    (hread : items.foldlM (Item.read source) ob = .ok ob') (hbase : ob.contains key = false) :
    (source.port settingName = none ∧ ob'.contains key = false) ∨
      ∃ n, source.port settingName = some n ∧ 0 ≤ n ∧ n ≤ 65535 ∧ ob'.contains key = true ∧
        ob'.value key = .ofInt n := by
  obtain ⟨htext, hcontains, -⟩ | ⟨s, origin, v, htext, hconvert, hcontains, hvalue⟩ :=
    Item.foldlM_read hnodup hitem hread
  · have htext : source.text settingName = none := htext
    exact .inl ⟨by rw [Source.port, htext]; rfl, hcontains.trans hbase⟩
  · have htext : source.text settingName = some (s, origin) := htext
    obtain ⟨n, hn, rfl⟩ := Option.map_eq_some_iff.mp hconvert
    obtain ⟨hlo, hhi⟩ := stringToUint16_bounds hn
    exact .inr ⟨n, by rw [Source.port, htext]; exact hn, hlo, hhi, hcontains, hvalue⟩

end Stored

section Server

/-- A member that is present is taken over as it is. -/
def Takes (f : QJsonValue → Option QJsonValue) (ob : QJsonObject) (key : String) : Prop :=
  ob.contains key = true → f (ob.value key) = some (ob.value key)

theorem readPlayers_other (hread : readPlayers source ob = .ok ob') (hkey : "playerNumPerRoom" ≠ key) :
    ob'.contains key = ob.contains key ∧ ob'.value key = ob.value key := by
  obtain rfl | ⟨n, -, rfl⟩ := readPlayers_cases hread
  · exact ⟨rfl, rfl⟩
  · simp [hkey]

theorem Takes.readPlayers {f : QJsonValue → Option QJsonValue} (h : Takes f ob key)
    (hread : readPlayers source ob = .ok ob') (hkey : "playerNumPerRoom" ≠ key) : Takes f ob' key := by
  obtain ⟨hcontains, hvalue⟩ := readPlayers_other hread hkey
  unfold Takes at h ⊢
  rw [hcontains, hvalue]
  exact h

theorem StoresInt.readPlayers (h : StoresInt lo hi ob key)
    (hread : readPlayers source ob = .ok ob') (hkey : "playerNumPerRoom" ≠ key) :
    StoresInt lo hi ob' key := by
  obtain ⟨hcontains, hvalue⟩ := readPlayers_other hread hkey
  unfold StoresInt at h ⊢
  rw [hcontains, hvalue]
  exact h

/-- The bounds `read_` puts on the numbers of a server. -/
structure InRange (conf : ServerConfiguration) : Prop where
  playerNumPerRoom : ¬ conf.values.playerNumPerRoom < 2
  requestTimeout : ¬ (conf.values.requestTimeout ≠ 0 ∧ conf.values.requestTimeout < 15)
  maximumPacketSize : ¬ conf.values.maximumPacketSize < 1024
  signInTimeout : ¬ (conf.values.signInTimeout < 2 ∨ conf.values.signInTimeout > 60)
  maximumRooms : ¬ conf.values.maximumRooms < 0

theorem serverItems_nodup : (serverItems.map Item.valueName).Nodup := by decide

/-- A transport's port is taken over unless it is named 0. -/
theorem takes_port (settingName key : String)
    (hitem : portItem settingName key ∈ serverItems)
    (hread : serverItems.foldlM (Item.read source) [] = .ok ob)
    (hport : source.port settingName ≠ some 0) : Takes ServerConfiguration.confPort ob key := by
  intro hpresent
  obtain ⟨-, hnone⟩ | ⟨n, hn, hlo, hhi, -, hvalue⟩ :=
    port_stored serverItems_nodup hitem hread rfl
  · rw [hnone] at hpresent
    cases hpresent
  · rw [hvalue]
    refine confInt_ofInt hlo (by unfold intMax; omega) ?_
    have hne : n ≠ 0 := fun heq => hport (heq ▸ hn)
    simp [hne]
    omega

/-- The control plane may go without. -/
theorem takes_controlPort (hread : serverItems.foldlM (Item.read source) [] = .ok ob) :
    Takes (ServerConfiguration.confInt fun parsed => !(parsed > 65535)) ob "controlPort" := by
  intro hpresent
  have hitem : portItem "control-port" "controlPort" ∈ serverItems := by simp [serverItems]
  obtain ⟨-, hnone⟩ | ⟨n, -, hlo, hhi, -, hvalue⟩ := port_stored serverItems_nodup hitem hread rfl
  · rw [hnone] at hpresent
    cases hpresent
  · rw [hvalue]
    exact confInt_ofInt hlo (by unfold intMax; omega) (by simpa using hhi)

theorem takes_bool (settingName key : String)
    (hitem : boolItem settingName key ∈ serverItems)
    (hread : serverItems.foldlM (Item.read source) [] = .ok ob) :
    Takes ServerConfiguration.confBool ob key := by
  intro hpresent
  obtain ⟨b, hvalue⟩ := bool_stored serverItems_nodup hitem hread (fun h => by cases h) hpresent
  rw [hvalue]
  rfl

theorem takes_text (settingName key : String)
    (hitem : textItem settingName key ∈ serverItems)
    (hread : serverItems.foldlM (Item.read source) [] = .ok ob) :
    Takes ServerConfiguration.confString ob key := by
  intro hpresent
  obtain ⟨s, hvalue⟩ := text_stored serverItems_nodup hitem hread (fun h => by cases h) hpresent
  rw [hvalue]
  rfl

theorem storesInt_server (settingName key : String)
    (hitem : intItem settingName key ∈ serverItems)
    (hread : serverItems.foldlM (Item.read source) [] = .ok ob) :
    StoresInt (-2147483648) 2147483647 ob key :=
  int_stored serverItems_nodup hitem hread fun h => by cases h

theorem storesInt_players (hread : serverItems.foldlM (Item.read source) [] = .ok ob)
    (hplayers : readPlayers source ob = .ok ob') :
    StoresInt (-2147483648) 2147483647 ob' "playerNumPerRoom" := by
  obtain rfl | ⟨n, hfits, rfl⟩ := readPlayers_cases hplayers
  · have hother : "playerNumPerRoom" ∉ serverItems.map Item.valueName := by decide
    have hnone := (Item.foldlM_read_other hother hread).1
    intro hpresent
    rw [hnone] at hpresent
    cases hpresent
  · exact storesInt_insert hfits.1 hfits.2

/-- With a port for each transport, the library takes all of it over. -/
theorem server_taken (hread : serverItems.foldlM (Item.read source) [] = .ok ob)
    (hplayers : readPlayers source ob = .ok ob') (hrange : InRange ⟨ob'⟩)
    (htcp : source.port "tcp-port" ≠ some 0) (hwebsocket : source.port "websocket-port" ≠ some 0) :
    ∃ conf, ServerConfiguration.deserialize (.object ob') = some conf ∧
      conf.values = ServerConfiguration.values ⟨ob'⟩ := by
  have hbool (settingName key : String) (hitem : boolItem settingName key ∈ serverItems)
      (hkey : "playerNumPerRoom" ≠ key) : Takes ServerConfiguration.confBool ob' key :=
    (takes_bool settingName key hitem hread).readPlayers hplayers hkey
  have htext (settingName key : String) (hitem : textItem settingName key ∈ serverItems)
      (hkey : "playerNumPerRoom" ≠ key) : Takes ServerConfiguration.confString ob' key :=
    (takes_text settingName key hitem hread).readPlayers hplayers hkey
  have hport (settingName key : String) (hitem : portItem settingName key ∈ serverItems)
      (hnamed : source.port settingName ≠ some 0) (hkey : "playerNumPerRoom" ≠ key) :
      Takes ServerConfiguration.confPort ob' key :=
    (takes_port settingName key hitem hread hnamed).readPlayers hplayers hkey
  have hint (settingName key : String) (hitem : intItem settingName key ∈ serverItems)
      (hkey : "playerNumPerRoom" ≠ key) : StoresInt (-2147483648) 2147483647 ob' key :=
    (storesInt_server settingName key hitem hread).readPlayers hplayers hkey
  obtain ⟨hroom, htimeout, hpacket, hsignIn, hrooms⟩ := hrange
  simp only [ServerConfiguration.values] at hroom htimeout hpacket hsignIn hrooms
  apply ServerConfiguration.deserialize_of_legal
  simp only [ServerConfiguration.fields, List.forall_mem_cons, List.not_mem_nil, false_implies,
    implies_true, and_true]
  refine ⟨hbool "tcp" "tcpEnabled" (by simp [serverItems]) (by decide),
    hport "tcp-port" "tcpPort" (by simp [serverItems]) htcp (by decide),
    hbool "local" "localEnabled" (by simp [serverItems]) (by decide),
    htext "local-name" "localSocketName" (by simp [serverItems]) (by decide),
    hbool "websocket" "websocketEnabled" (by simp [serverItems]) (by decide),
    htext "websocket-name" "websocketName" (by simp [serverItems]) (by decide),
    hport "websocket-port" "websocketPort" (by simp [serverItems]) hwebsocket (by decide),
    (takes_controlPort hread).readPlayers hplayers (by decide), ?_, ?_, ?_, ?_, ?_⟩
  · exact (storesInt_players hread hplayers).confInt (by omega) (by simpa using hroom)
  · apply (hint "timeout" "requestTimeout" (by simp [serverItems]) (by decide)).confInt
    · omega
    · simp only [ne_eq, Bool.not_eq_true', Bool.and_eq_false_iff, decide_eq_false_iff_not]
      omega
  · exact (hint "maximum-packet-size" "maximumPacketSize" (by simp [serverItems])
      (by decide)).confInt (by omega) (by simpa using hpacket)
  · apply (hint "sign-in-timeout" "signInTimeout" (by simp [serverItems]) (by decide)).confInt
    · omega
    · simp only [Bool.not_eq_true', Bool.or_eq_false_iff, decide_eq_false_iff_not]
      omega
  · exact (hint "maximum-rooms" "maximumRooms" (by simp [serverItems]) (by decide)).confInt
      (by omega) rfl

/-- Without one, it does not. -/
theorem server_refused (settingName key : String)
    (hitem : portItem settingName key ∈ serverItems)
    (hread : serverItems.foldlM (Item.read source) [] = .ok ob)
    (hplayers : readPlayers source ob = .ok ob') (hfield : (key, ServerConfiguration.confPort) ∈
      ServerConfiguration.fields) (hkey : "playerNumPerRoom" ≠ key)
    (hport : source.port settingName = some 0) :
    ServerConfiguration.deserialize (.object ob') = none := by
  obtain ⟨hcontains, hvalue⟩ := readPlayers_other hplayers hkey
  obtain ⟨hnone, -⟩ | ⟨n, hn, -, -, hpresent, hstored⟩ :=
    port_stored serverItems_nodup hitem hread rfl
  · rw [hnone] at hport
    cases hport
  · obtain rfl : 0 = n := Option.some.inj (hport.symm.trans hn)
    apply ServerConfiguration.deserialize_of_illegal hfield (hcontains.trans hpresent)
    change ServerConfiguration.confPort (ob'.value key) = none
    rw [hvalue, hstored]
    rfl

end Server

section Rules

open LogicConfiguration (intKeys boolKeys)

/-- The bounds `read_` puts on the rules. -/
structure Playable (conf : LogicConfiguration) : Prop where
  initialKnifeDamage : 1 ≤ conf.initialKnifeDamage
  maximumKnifeDamage : conf.initialKnifeDamage ≤ conf.maximumKnifeDamage
  initialHorseDamage : 2 ≤ conf.initialHorseDamage
  maximumHorseDamage : conf.initialHorseDamage ≤ conf.maximumHorseDamage
  initialMaxHp : 7 ≤ conf.initialMaxHp
  maximumMaxHp : conf.initialMaxHp ≤ conf.maximumMaxHp
  punishHpModifier : 0 ≤ conf.punishHpModifier

theorem logicItems_nodup : (logicItems.map Item.valueName).Nodup := by decide

/-- What the rules of a run start from. -/
def presets (v1set : Bool) : QJsonObject := if v1set then LogicConfiguration.v1.object else []

theorem storesInt_presets (v1set : Bool) :
    (∀ key ∈ intKeys, StoresInt (-2147483648) 2147483647 (presets v1set) key) ∧
      StoresInt 0 3 (presets v1set) "punishHpRoundStrategy" := by
  cases v1set with
  | false => exact ⟨fun key _ hpresent => (by cases hpresent), fun hpresent => by cases hpresent⟩
  | true =>
    refine ⟨fun key hkey _ => ?_, fun _ => ⟨1, by decide, by decide, rfl⟩⟩
    simp only [intKeys, List.mem_cons, List.not_mem_nil, or_false] at hkey
    rcases hkey with rfl | rfl | rfl | rfl | rfl | rfl | rfl | rfl <;>
      exact ⟨_, by decide, by decide, rfl⟩

theorem storesBool_presets (v1set : Bool) : ∀ key ∈ boolKeys,
    (presets v1set).contains key = true → ∃ b, (presets v1set).value key = .bool b := by
  intro key hkey hpresent
  cases v1set with
  | false => cases hpresent
  | true =>
    simp only [boolKeys, List.mem_cons, List.not_mem_nil, or_false] at hkey
    rcases hkey with rfl | rfl | rfl <;> exact ⟨_, rfl⟩

/-- A number whose getter returns no negative one is legal among the rules. -/
theorem StoresInt.legal (h : StoresInt (-2147483648) 2147483647 ob key)
    (hlo : 0 ≤ LogicConfiguration.intMember ⟨ob⟩ key) : LogicConfiguration.confInt ob key = true := by
  unfold LogicConfiguration.confInt
  by_cases hpresent : ob.contains key = true
  · obtain ⟨n, hmin, hmax, hvalue⟩ := h hpresent
    have hmember : LogicConfiguration.intMember ⟨ob⟩ key = n := by
      rw [LogicConfiguration.intMember, LogicConfiguration.member, if_pos hpresent, hvalue,
        QJsonValue.toInt_ofInt ⟨hmin, hmax⟩]
    rw [hvalue, LogicConfiguration.parseNonNegativeInt_ofInt (hmember ▸ hlo) hmax]
    simp
  · simp [hpresent]

theorem StoresInt.mono {lo' hi' : Int} (h : StoresInt lo hi ob key) (hlo : lo' ≤ lo)
    (hhi : hi ≤ hi') : StoresInt lo' hi' ob key := by
  intro hpresent
  obtain ⟨n, hmin, hmax, hvalue⟩ := h hpresent
  exact ⟨n, hlo.trans hmin, hmax.trans hhi, hvalue⟩

/-- The strategy that is read is one. -/
theorem strategy_bounds (h : StoresInt 0 3 ob "punishHpRoundStrategy") :
    0 ≤ LogicConfiguration.intMember ⟨ob⟩ "punishHpRoundStrategy" ∧
      LogicConfiguration.intMember ⟨ob⟩ "punishHpRoundStrategy" ≤ 3 := by
  unfold LogicConfiguration.intMember LogicConfiguration.member
  split
  · next hpresent =>
    obtain ⟨n, hmin, hmax, hvalue⟩ := h hpresent
    rw [hvalue, QJsonValue.toInt_ofInt ⟨by omega, by omega⟩]
    exact ⟨hmin, hmax⟩
  · decide

theorem rules_taken {v1set : Bool}
    (hread : logicItems.foldlM (Item.read source) (presets v1set) = .ok ob)
    (hplayable : Playable ⟨ob⟩) :
    ∃ conf, LogicConfiguration.deserialize (.object ob) = some conf ∧
      conf.values = LogicConfiguration.values ⟨ob⟩ := by
  obtain ⟨hpresetInts, hpresetStrategy⟩ := storesInt_presets v1set
  have hint (settingName key : String) (hitem : intItem settingName key ∈ logicItems)
      (hkey : key ∈ intKeys) : StoresInt (-2147483648) 2147483647 ob key :=
    int_stored logicItems_nodup hitem hread (hpresetInts key hkey)
  have hbool (settingName key : String) (hitem : boolItem settingName key ∈ logicItems)
      (hkey : key ∈ boolKeys) : LogicConfiguration.confBool ob key = true := by
    unfold LogicConfiguration.confBool
    by_cases hpresent : ob.contains key = true
    · obtain ⟨b, hvalue⟩ := bool_stored logicItems_nodup hitem hread
        (storesBool_presets v1set key hkey) hpresent
      rw [hvalue]
      simp [QJsonValue.isBool]
    · simp [hpresent]
  have hstrategyItem :
      strategyItem "punish-hp-round-strategy" "punishHpRoundStrategy" ∈ logicItems := by
    simp [logicItems]
  have hstrategy := strategy_stored logicItems_nodup hstrategyItem hread hpresetStrategy
  have hstrategyBounds := strategy_bounds hstrategy
  obtain ⟨hknife, hmaximumKnife, hhorse, hmaximumHorse, hmaxHp, hmaximumMaxHp, hpunish⟩ := hplayable
  rw [LogicConfiguration.initialKnifeDamage] at hknife hmaximumKnife
  rw [LogicConfiguration.maximumKnifeDamage] at hmaximumKnife
  rw [LogicConfiguration.initialHorseDamage] at hhorse hmaximumHorse
  rw [LogicConfiguration.maximumHorseDamage] at hmaximumHorse
  rw [LogicConfiguration.initialMaxHp] at hmaxHp hmaximumMaxHp
  rw [LogicConfiguration.maximumMaxHp] at hmaximumMaxHp
  rw [LogicConfiguration.punishHpModifier] at hpunish
  have hints : ∀ key ∈ intKeys, LogicConfiguration.confInt ob key = true := by
    simp only [intKeys, List.forall_mem_cons, List.not_mem_nil, false_implies, implies_true,
      and_true]
    refine ⟨?_, ?_, ?_, ?_, ?_, ?_, ?_, ?_⟩
    · exact (hint "slash" _ (by simp [logicItems]) (by decide)).legal (by omega)
    · exact (hint "maximum-slash" _ (by simp [logicItems]) (by decide)).legal (by omega)
    · exact (hint "kick" _ (by simp [logicItems]) (by decide)).legal (by omega)
    · exact (hint "maximum-kick" _ (by simp [logicItems]) (by decide)).legal (by omega)
    · exact (hint "maxhp" _ (by simp [logicItems]) (by decide)).legal (by omega)
    · exact (hint "maximum-maxhp" _ (by simp [logicItems]) (by decide)).legal (by omega)
    · exact (hint "punish-hp-modifier" _ (by simp [logicItems]) (by decide)).legal (by omega)
    · exact (hstrategy.mono (by decide) (by decide)).legal hstrategyBounds.1
  have hbools : ∀ key ∈ boolKeys, LogicConfiguration.confBool ob key = true := by
    simp only [boolKeys, List.forall_mem_cons, List.not_mem_nil, false_implies, implies_true,
      and_true]
    refine ⟨?_, ?_, ?_⟩
    · exact hbool "zero-hp-as-dead" _ (by simp [logicItems]) (by decide)
    · exact hbool "enable-let-move" _ (by simp [logicItems]) (by decide)
    · exact hbool "can-buy-only-in-initial-city" _ (by simp [logicItems]) (by decide)
  have hparsed (key : String) (hkey : key ∈ intKeys) :=
    LogicConfiguration.parsedInt_eq (hints key hkey)
  have htaken : LogicConfiguration.deserialize (.object ob) =
      some ⟨ob.filter fun member => decide (member.1 ∈ intKeys ++ boolKeys)⟩ := by
    simp only [LogicConfiguration.deserialize, List.all_eq_true.mpr hints,
      List.all_eq_true.mpr hbools, Bool.not_true, Bool.false_eq_true, if_false]
    rw [hparsed _ (by decide), hparsed _ (by decide), hparsed _ (by decide), hparsed _ (by decide),
      hparsed _ (by decide), hparsed _ (by decide), hparsed _ (by decide), if_neg (by omega),
      if_neg (by omega), if_neg (by omega), if_neg (by omega)]
  exact ⟨_, htaken, (LogicConfiguration.sameMembers_of_deserialize htaken).values_eq⟩

end Rules

namespace Config

variable {setting : Settings} {parser : QCommandLineParser} {config : Config}

/-- What a run that is not refused has gone through. -/
structure Stages (setting : Settings) (parser : QCommandLineParser) (config : Config)
    (ob : QJsonObject) : Prop where
  server : serverItems.foldlM (Item.read (serverSource setting parser)) [] = .ok ob
  players : readPlayers (serverSource setting parser) ob = .ok config.serverConfiguration.object
  inRange : InRange config.serverConfiguration
  rules : logicItems.foldlM (Item.read (logicSource setting parser)) (presets (parser.isSet "1")) =
    .ok config.logicConfiguration.object
  playable : Playable config.logicConfiguration

/-- What `read_` asks of the values it has resolved. -/
structure Checked (server : ServerConfiguration) (rules : LogicConfiguration) : Prop where
  inRange : InRange server
  ranges : ∀ check ∈ rangeChecks rules, ¬ check.1 < check.2.1
  crosses : ∀ check ∈ crossChecks rules, ¬ check.1.1 > check.2.1
  punishHpModifier : ¬ (rules.punishHpModifier ≠ 0 ∧ rules.punishHpModifier < 2)

theorem Checked.playable {server : ServerConfiguration} {rules : LogicConfiguration}
    (h : Checked server rules) : Playable rules := by
  obtain ⟨-, hrange, hcross, hpunish⟩ := h
  simp only [rangeChecks, crossChecks, List.forall_mem_cons, List.not_mem_nil, false_implies,
    implies_true, and_true, not_lt] at hrange hcross
  obtain ⟨hknife, -, hhorse, -, hmaxHp, -⟩ := hrange
  obtain ⟨hknifes, hhorses, hmaxHps⟩ := hcross
  exact ⟨hknife, hknifes, hhorse, hhorses, hmaxHp, hmaxHps, by omega⟩

/-- A run is not refused exactly if its items can be read to values that pass the checks. -/
theorem read_eq_ok : read_ setting parser = .ok config ↔
    readLogLevel parser = .ok config.logLevel ∧
      (∃ ob, serverItems.foldlM (Item.read (serverSource setting parser)) [] = .ok ob ∧
        readPlayers (serverSource setting parser) ob = .ok config.serverConfiguration.object) ∧
      logicItems.foldlM (Item.read (logicSource setting parser)) (presets (parser.isSet "1")) =
        .ok config.logicConfiguration.object ∧
      Checked config.serverConfiguration config.logicConfiguration := by
  constructor
  · intro hread
    unfold read_ at hread
    obtain ⟨logLevel, hlevel, hread⟩ := Except.bind_eq_ok.mp hread
    obtain ⟨ob, hserver, hread⟩ := Except.bind_eq_ok.mp hread
    obtain ⟨server, hplayers, hread⟩ := Except.bind_eq_ok.mp hread
    obtain ⟨_, hroom, hread⟩ := Except.bind_eq_ok.mp hread
    obtain ⟨rules, hrules, hread⟩ := Except.bind_eq_ok.mp hread
    obtain ⟨_, hranges, hread⟩ := Except.bind_eq_ok.mp hread
    obtain ⟨_, hcrosses, hread⟩ := Except.bind_eq_ok.mp hread
    obtain ⟨_, htimeout, hread⟩ := Except.bind_eq_ok.mp hread
    obtain ⟨_, hpacket, hread⟩ := Except.bind_eq_ok.mp hread
    obtain ⟨_, hsignIn, hread⟩ := Except.bind_eq_ok.mp hread
    obtain ⟨_, hrooms, hread⟩ := Except.bind_eq_ok.mp hread
    obtain ⟨_, hpunish, hread⟩ := Except.bind_eq_ok.mp hread
    cases hread
    refine ⟨hlevel, ⟨ob, hserver, hplayers⟩, hrules, ⟨reject_eq_ok.mp hroom,
      reject_eq_ok.mp htimeout, reject_eq_ok.mp hpacket, reject_eq_ok.mp hsignIn,
      reject_eq_ok.mp hrooms⟩, fun check hcheck => ?_, fun check hcheck => ?_,
      reject_eq_ok.mp hpunish⟩
    · exact reject_eq_ok.mp (forM_eq_ok.mp hranges check hcheck)
    · exact reject_eq_ok.mp (forM_eq_ok.mp hcrosses check hcheck)
  · rintro ⟨hlevel, ⟨ob, hserver, hplayers⟩, hrules, ⟨hroom, htimeout, hpacket, hsignIn, hrooms⟩,
      hranges, hcrosses, hpunish⟩
    have hranges : (rangeChecks config.logicConfiguration).forM checkRange = .ok () :=
      forM_eq_ok.mpr fun check hcheck => reject_eq_ok.mpr (hranges check hcheck)
    have hcrosses : (crossChecks config.logicConfiguration).forM checkCross = .ok () :=
      forM_eq_ok.mpr fun check hcheck => reject_eq_ok.mpr (hcrosses check hcheck)
    unfold read_
    refine Except.bind_eq_ok.mpr ⟨_, hlevel, Except.bind_eq_ok.mpr ⟨_, hserver, ?_⟩⟩
    refine Except.bind_eq_ok.mpr ⟨_, hplayers, Except.bind_eq_ok.mpr ⟨(), reject_eq_ok.mpr hroom, ?_⟩⟩
    refine Except.bind_eq_ok.mpr ⟨_, hrules, Except.bind_eq_ok.mpr ⟨(), hranges, ?_⟩⟩
    refine Except.bind_eq_ok.mpr ⟨(), hcrosses, ?_⟩
    refine Except.bind_eq_ok.mpr ⟨(), reject_eq_ok.mpr htimeout, ?_⟩
    refine Except.bind_eq_ok.mpr ⟨(), reject_eq_ok.mpr hpacket, ?_⟩
    refine Except.bind_eq_ok.mpr ⟨(), reject_eq_ok.mpr hsignIn, ?_⟩
    refine Except.bind_eq_ok.mpr ⟨(), reject_eq_ok.mpr hrooms, ?_⟩
    exact Except.bind_eq_ok.mpr ⟨(), reject_eq_ok.mpr hpunish, rfl⟩

theorem stages_of_read (hread : read_ setting parser = .ok config) :
    ∃ ob, Stages setting parser config ob := by
  obtain ⟨-, ⟨ob, hserver, hplayers⟩, hrules, hchecked⟩ := read_eq_ok.mp hread
  exact ⟨ob, hserver, hplayers, hchecked.inRange, hrules, hchecked.playable⟩

/-- The library takes over what a run starts with, and its getters return the same. -/
def Taken (config : Config) : Prop :=
  (∃ server, ServerConfiguration.deserialize (.object config.serverConfiguration.object) =
      some server ∧ server.values = config.serverConfiguration.values) ∧
    ∃ rules, LogicConfiguration.deserialize (.object config.logicConfiguration.object) =
      some rules ∧ rules.values = config.logicConfiguration.values

/-- The rules of a run are always taken over. -/
theorem rules_taken_of_read (hread : read_ setting parser = .ok config) :
    ∃ rules, LogicConfiguration.deserialize (.object config.logicConfiguration.object) =
      some rules ∧ rules.values = config.logicConfiguration.values := by
  obtain ⟨ob, hstages⟩ := stages_of_read hread
  exact rules_taken hstages.rules hstages.playable

theorem not_taken_of_port (hread : read_ setting parser = .ok config)
    (hport : (serverSource setting parser).port "tcp-port" = some 0 ∨
      (serverSource setting parser).port "websocket-port" = some 0) : ¬ config.Taken := by
  obtain ⟨ob, hstages⟩ := stages_of_read hread
  rintro ⟨⟨server, hserver, -⟩, -⟩
  have hnone : ServerConfiguration.deserialize (.object config.serverConfiguration.object) =
      none := by
    rcases hport with hport | hport
    · exact server_refused "tcp-port" "tcpPort" (by simp [serverItems]) hstages.server
        hstages.players (by simp [ServerConfiguration.fields]) (by decide) hport
    · exact server_refused "websocket-port" "websocketPort" (by simp [serverItems]) hstages.server
        hstages.players (by simp [ServerConfiguration.fields]) (by decide) hport
  rw [hnone] at hserver
  cases hserver

/-- A start-up configuration that is accepted is one for the library exactly when neither
transport that has a port is given port 0. -/
theorem read_taken_iff (hread : read_ setting parser = .ok config) :
    config.Taken ↔ (serverSource setting parser).port "tcp-port" ≠ some 0 ∧
      (serverSource setting parser).port "websocket-port" ≠ some 0 := by
  constructor
  · intro htaken
    by_contra hport
    exact not_taken_of_port hread (by tauto) htaken
  · rintro ⟨htcp, hwebsocket⟩
    obtain ⟨ob, hstages⟩ := stages_of_read hread
    exact ⟨server_taken hstages.server hstages.players hstages.inRange htcp hwebsocket,
      rules_taken_of_read hread⟩

/-- No settings anywhere. -/
def unset : Settings := ⟨fun _ => none, fun _ => none, fun _ => none⟩

/-- A command line of these options. -/
def options (set : List (String × String)) : QCommandLineParser where
  isSet name := set.any fun option => option.1 = name
  value name := ((set.find? fun option => option.1 = name).map Prod.snd).getD ""

/-- What the three configuration files hold. -/
def stored : Settings where
  specifiedConfig key := List.lookup key [("server/tcp-port", "0"), ("server/timeout", "0")]
  userConfig key := List.lookup key [("logic/punish-hp-modifier", "3"),
    ("logic/punish-hp-round-strategy", "roundup"), ("server/timeout", "40")]
  globalConfig key := List.lookup key [("server/websocket-port", "9001"), ("logic/kick", "4"),
    ("logic/enable-let-move", "off")]

/-- Five seats, a port in the place of the 0 that is stored, and better knives. -/
def fiveSeats : QCommandLineParser :=
  options [("5", ""), ("tcp-port", "7000"), ("maximum-slash", "9"), ("log-level", "info")]

/-- The command line goes before the files, and each file before the next. -/
theorem read_taken_iff_stored : ∃ config, read_ stored fiveSeats = .ok config ∧
    config.serverConfiguration.values.playerNumPerRoom = 5 ∧
    config.serverConfiguration.values.tcpPort = 7000 ∧
    config.serverConfiguration.values.requestTimeout = 0 ∧
    config.logicConfiguration.initialHorseDamage = 4 ∧
    config.logicConfiguration.maximumKnifeDamage = 9 ∧ config.Taken := by
  have hread : read_ stored fiveSeats = .ok
      ⟨⟨[("playerNumPerRoom", .ofInt 5), ("requestTimeout", .ofInt 0), ("tcpPort", .ofInt 7000),
          ("websocketPort", .ofInt 9001)]⟩,
        ⟨[("enableLetMove", .bool false), ("initialHorseDamage", .ofInt 4),
          ("maximumKnifeDamage", .ofInt 9), ("punishHpModifier", .ofInt 3),
          ("punishHpRoundStrategy", .ofInt 2)]⟩, .Info⟩ := by rfl
  have htaken := (read_taken_iff hread).mpr ⟨by decide, by decide⟩
  exact ⟨_, hread, rfl, rfl, rfl, rfl, rfl, htaken⟩

/-- `--tcp-port 0` is taken for a port. -/
theorem read_taken_fails :
    ∃ config, read_ unset (options [("tcp-port", "0")]) = .ok config ∧ ¬ config.Taken := by
  have hread : read_ unset (options [("tcp-port", "0")]) =
      .ok ⟨⟨[("tcpPort", .ofInt 0)]⟩, ⟨[]⟩, .Off⟩ := by rfl
  exact ⟨_, hread, not_taken_of_port hread (.inl (by decide))⟩

end Config

end QMdmmServer
