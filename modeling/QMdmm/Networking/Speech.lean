import QMdmm.Networking.Client

namespace QMdmmNetworking

open QMdmmCore Protocol

/-- `LogicRunnerP::agentSpoken`, as it notifies each agent of the room. -/
def LogicRunnerP.agentSpoken (playerName content : String) : List Notification :=
  if content.isEmpty then [] else [.speak playerName content]

/-- What arrives of a content: a byte order mark that it begins with is lost. -/
def heard (content : String) : String :=
  match content.toList with
  | [] => ""
  | c :: rest => if c = '\uFEFF' then .ofList rest else content

theorem heard_mark (content : String) : heard ("\uFEFF" ++ content) = content := by
  rw [heard, String.toList_append]
  exact (if_pos rfl).trans String.ofList_toList

theorem heard_of_head_ne {content : String} (h : content.toList.head? ≠ some '\uFEFF') :
    heard content = content := by
  unfold heard
  split
  · next hchars => exact (String.toList_eq_nil_iff.mp hchars).symm
  · next c rest hchars =>
    rw [hchars, List.head?_cons] at h
    exact if_neg fun hmark => h (congrArg some hmark)

namespace ClientP

theorem decodeContent_encodeContent (content : String) :
    decodeContent (encodeContent content) = heard content := by
  rw [decodeContent, encodeContent, QString.toLatin1_fromLatin1, Base64.decode_encode]
  by_cases hmark : content.toList.head? = some '\uFEFF'
  · obtain ⟨rest, hchars⟩ := List.head?_eq_some_iff.mp hmark
    obtain rfl : content = "\uFEFF" ++ .ofList rest := by
      have htail : (String.ofList rest).toList = rest := String.toList_ofList
      rw [← String.toList_inj, hchars, String.toList_append, htail]
      rfl
    rw [heard_mark, QString.fromUtf8_toUtf8_mark]
  · rw [heard_of_head_ne hmark, QString.fromUtf8_toUtf8 hmark]

/-- Only nothing is encoded as nothing. -/
theorem encodeContent_isEmpty (content : String) :
    (encodeContent content).isEmpty = content.isEmpty := by
  rw [Bool.eq_iff_iff, String.isEmpty_iff, String.isEmpty_iff]
  constructor
  · intro hempty
    have hlatin := congrArg (Base64.decode ∘ QString.toLatin1) hempty
    have hbytes : QString.toUtf8 content = [] := by
      rw [Function.comp_apply, encodeContent, QString.toLatin1_fromLatin1,
        Base64.decode_encode] at hlatin
      exact hlatin
    apply String.toList_eq_nil_iff.mp
    exact List.length_eq_zero_iff.mp (Nat.le_zero.mp
      ((QString.length_le_flatMap content.toList).trans (List.length_eq_zero_iff.mpr hbytes).le))
  · rintro rfl
    rfl

end ClientP

variable {speaker listener : ClientP} {conn other : ServerConnectionP} {playerName : String}

/-- The server passes on what is said as it comes in, without reading it, and nothing if
there is nothing said; and a client that knows the player reads it as it was. -/
theorem speak_heard (hspeaker : speaker.socket.isSome = true) (hconn : conn.socket.isSome = true)
    (hother : other.socket.isSome = true) (hlistener : listener.socket.isSome = true)
    (hknown : playerName ∈ listener.agents) (content : String) (random : Data.RockPaperScissors) :
    ∃ packet said, speaker.sendSpeak content = (speaker, [.sendPacket packet]) ∧
      conn.packetReceived packet random = ({ conn with heartbeatDeadline := true }, [.speak said]) ∧
      (content = "" → LogicRunnerP.agentSpoken playerName said = []) ∧
      (content ≠ "" → ∃ notified,
        (LogicRunnerP.agentSpoken playerName said).map other.notify =
          [(other, [.sendPacket notified])] ∧
        listener.socketPacketReceived notified =
          .ok (listener, [.notify (.speak playerName (heard content))])) := by
  have hwire : conn.socket.isNone = false := by simp [hconn]
  have hlistens : listener.socket.isNone = false := by simp [hlistener]
  refine ⟨_, ClientP.encodeContent content, by rw [ClientP.sendSpeak, if_pos hspeaker], ?_,
    fun hempty => ?_, fun hcontent => ?_⟩
  · rw [ServerConnectionP.packetReceived, hwire]
    rfl
  · rw [LogicRunnerP.agentSpoken, ClientP.encodeContent_isEmpty, hempty]
    rfl
  · have hsaid : (ClientP.encodeContent content).isEmpty = false := by
      rw [ClientP.encodeContent_isEmpty, ← Bool.not_eq_true, String.isEmpty_iff]
      exact hcontent
    have hsend (packet : Packet) : other.send packet = [.sendPacket packet] := if_pos hother
    have hread : listener.agents.contains playerName = true := decide_eq_true hknown
    refine ⟨.ofNotify .NotifySpoken (.object [("playerName", .string playerName),
      ("content", .string (ClientP.encodeContent content))]), ?_, ?_⟩
    · rw [LogicRunnerP.agentSpoken, hsaid, if_neg Bool.false_ne_true, List.map_singleton,
        ServerConnectionP.notify, ServerConnectionP.sendSpeakNotified, hsend]
    · rw [ClientP.socketPacketReceived, hlistens]
      simp [Packet.ofNotify, ClientP.notifyReceived, ClientP.notifySpoken, QJsonValue.toObject,
        QJsonObject.value, QJsonValue.isString, QJsonValue.toQString, hread,
        ClientP.decodeContent_encodeContent]

end QMdmmNetworking
