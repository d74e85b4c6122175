import QMdmm.Core.Deserialize
import QMdmm.Networking.Client

namespace QMdmmNetworking

open QMdmmCore Protocol

namespace ClientEffect

/-- Whether an effect ends the connection of the client. -/
def endsConnection : ClientEffect → Bool
  | .setError | .letGo => true
  | _ => false

end ClientEffect

namespace ClientP

/-- The room a client mirrors after a configuration of the rules it accepts. -/
def withRules (self : ClientP) (conf : LogicConfiguration) : ClientP :=
  { self with room := { self.room with logicConfiguration := conf } }

/-- What the protocol promises for the rules a client is sent: those of a legal
object become the rules of the mirror, and others are ignored, with the client
as it was and any connection it has still up. -/
def HeedsRules (self : ClientP) (value : QJsonValue) : Prop :=
  let (self', effects) := self.notifyLogicConfiguration value
  if (LogicConfiguration.deserialize value).isSome then
    ∃ ob conf, value = .object ob ∧ LogicConfiguration.Answers ob conf ∧ self' = self.withRules conf ∧
      effects = [.notify .logicConfiguration]
  else self' = self ∧ (self.socket.isSome = true → ∀ effect ∈ effects, effect.endsConnection = false)

/-- Rules that are refused leave the client as it was, but for its connection. -/
theorem notifyLogicConfiguration_of_refused (self : ClientP) {value : QJsonValue}
    (hrefused : LogicConfiguration.deserialize value = none) :
    self.notifyLogicConfiguration value = (self, [.setError]) := by
  rw [notifyLogicConfiguration, hrefused]

theorem notifyLogicConfiguration_of_accepted (self : ClientP) {value : QJsonValue}
    {conf : LogicConfiguration} (haccepted : LogicConfiguration.deserialize value = some conf) :
    ∃ ob, value = .object ob ∧ LogicConfiguration.Answers ob conf ∧
      self.notifyLogicConfiguration value = (self.withRules conf, [.notify .logicConfiguration]) := by
  cases value with
  | object ob =>
    refine ⟨ob, rfl, LogicConfiguration.answers_of_deserialize haccepted, ?_⟩
    rw [notifyLogicConfiguration, haccepted]
    rfl
  | _ => cases haccepted

/-- The scope guard of the handler drops the connection of every client that is
sent rules it refuses. -/
theorem heedsRules_iff (self : ClientP) (value : QJsonValue) :
    self.HeedsRules value ↔
      (LogicConfiguration.deserialize value).isSome = true ∨ self.socket = none := by
  unfold HeedsRules
  cases hconf : LogicConfiguration.deserialize value with
  | some conf =>
    obtain ⟨ob, hob, hanswers, hhandled⟩ := self.notifyLogicConfiguration_of_accepted hconf
    rw [hhandled]
    exact iff_of_true ⟨ob, conf, hob, hanswers, rfl, rfl⟩ (.inl rfl)
  | none =>
    rw [self.notifyLogicConfiguration_of_refused hconf]
    cases hsocket : self.socket with
    | none => simp
    | some socket => simp [ClientEffect.endsConnection]

/-- A connected client that is sent a hit point count of the wrong type. -/
theorem not_heedsRules :
    ¬ HeedsRules { new "a" "A" with socket := some 0, attached := true }
      (.object [("initialMaxHp", .bool true)]) := by
  unfold HeedsRules
  have hrefused : LogicConfiguration.deserialize (.object [("initialMaxHp", .bool true)]) = none := by
    rfl
  rw [notifyLogicConfiguration_of_refused _ hrefused, hrefused]
  simp [ClientEffect.endsConnection]

end ClientP

end QMdmmNetworking
