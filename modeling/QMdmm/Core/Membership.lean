import Mathlib.Data.Finset.Basic
import Mathlib.Data.Finset.Dedup
import QMdmm.Core.Dialogue

namespace QMdmmCore

open Data Logic

namespace LogicP

variable {d : LogicP}

/-- Nobody is asked for more orders than there are left. -/
theorem Conserved.selections_le (h : d.Conserved) {name : String} {selections : Int}
    (hpos : 0 < selections)
    (hselections : d.actionOrderRemainingSelections.value name (-1) = selections) :
    name ∈ d.room.playerNames ∧ selections ≤ d.remainingActionOrders.length := by
  have hvalue : d.actionOrderRemainingSelections.value name 0 = selections := by
    unfold QHash.value at hselections ⊢
    cases hlookup : d.actionOrderRemainingSelections.lookup name with
    | none =>
      rw [hlookup, Option.getD_none] at hselections
      omega
    | some n =>
      rw [hlookup] at hselections
      exact hselections
  have hshares := h.shares name
  have hleftover := count_leftoverPlayers d name
  have hlength := length_leftoverPlayers h.confirmed_range h.shared.held_le
  have hcount := List.count_le_length (a := name) (l := d.leftoverPlayers)
  constructor
  · apply h.winners_mem
    rw [← List.count_pos_iff]
    omega
  · omega

/-- Who desires an order is in the room. -/
theorem Conserved.desired_mem (h : d.Conserved) {name : String} {order : Int}
    (hname : name ∈ d.desiredActionOrders.values order) : name ∈ d.room.playerNames := by
  have hshares := h.shares name
  have hselections := h.selections_nonneg name
  have hdesires : 0 < desires d.desiredActionOrders name :=
    List.count_pos_iff.mpr (List.mem_map_of_mem (QMultiHash.mem_of_mem_values hname))
  apply h.winners_mem
  rw [← List.count_pos_iff]
  omega

end LogicP

namespace Logic

open LogicP Dialogue

variable {self self' : Logic (List Signal)}

/-- The names of the players in the room. -/
def playerSet (self : Logic (List Signal)) : Finset String := self.d.room.playerNames.toFinset

/-- What a call that is accepted makes of the names in the room. -/
def Call.settle (names : Finset String) : Call → Finset String
  | .addPlayer playerName => insert playerName names
  | .removePlayer playerName => names.erase playerName
  | _ => names

theorem mem_playerSet {name : String} : name ∈ self.playerSet ↔ name ∈ self.d.room.playerNames :=
  List.mem_toFinset

theorem playerSet_addPlayer {name : String} (habsent : name ∉ self.d.room.playerNames) :
    (self.d.room.addPlayer name).2.resetUpgrades.playerNames.toFinset =
      insert name self.playerSet := by
  ext other
  rw [Room.addPlayer_of_notMem habsent, Room.resetUpgrades_playerNames, List.mem_toFinset,
    Finset.mem_insert, mem_playerSet]
  exact OrderedMap.mem_keys_insert habsent

theorem playerSet_removePlayer {name : String} (hmember : name ∈ self.d.room.playerNames) :
    (self.d.room.removePlayer name).2.resetUpgrades.playerNames.toFinset =
      self.playerSet.erase name := by
  ext other
  rw [Room.removePlayer_of_mem hmember, Room.resetUpgrades_playerNames, List.mem_toFinset,
    Finset.mem_erase, mem_playerSet]
  exact OrderedMap.mem_keys_erase

/-- Between the rounds a call that starts none changes the names at most. -/
theorem CallStep.settles {c : Call} {ret : Bool} (hstep : CallStep self c ret self')
    (hstate : self.d.state = .BeforeRoundStart) (hstart : c ≠ .roundStart) :
    self'.d.state = .BeforeRoundStart ∧ self'.env = self.env ∧
      self'.playerSet = c.settle self.playerSet := by
  cases hstep with
  | rejected hreject =>
    refine ⟨hstate, rfl, ?_⟩
    cases c with
    | addPlayer name =>
      have hmember : name ∈ self.d.room.playerNames := by
        by_contra habsent
        exact hreject ⟨hstate, habsent⟩
      exact (Finset.insert_eq_of_mem (mem_playerSet.mpr hmember)).symm
    | removePlayer name =>
      have habsent : name ∉ self.playerSet := fun hmember =>
        hreject ⟨hstate, mem_playerSet.mp hmember⟩
      exact (Finset.erase_eq_of_notMem habsent).symm
    | _ => rfl
  | addPlayer _ habsent => exact ⟨hstate, rfl, playerSet_addPlayer habsent⟩
  | removePlayer _ hmember => exact ⟨hstate, rfl, playerSet_removePlayer hmember⟩
  | roundStart => exact absurd rfl hstart
  | rpsForAction _ hother | rpsForActionOrder _ hother | pick _ hother | lastPick _ hother
  | action _ hother | upgrade _ hother =>
    rw [hstate] at hother
    cases hother

/-- No other call changes the names. -/
theorem CallStep.playerSet {c : Call} {ret : Bool} (hstep : CallStep self c ret self')
    (hkeeps : c.changesNames = false) : self'.playerSet = self.playerSet := by
  unfold Logic.playerSet
  rw [hstep.room.playerNames hkeeps]

/-- Who is waited for is in the room. -/
theorem NegotiationInv.awaits_mem (h : NegotiationInv self) {signal : Signal}
    (hawaits : Awaits self.d [] signal) : ∀ name ∈ signal.asks, name ∈ self.d.room.playerNames := by
  have hphase := h.phase
  intro name hname
  cases signal with
  | requestRpsForAction playerNames =>
    obtain ⟨-, rfl, -⟩ := hawaits
    exact Room.alivePlayerNames_subset hname
  | requestActionOrder playerName =>
    obtain ⟨hstate, -, hpos, hselections⟩ := hawaits
    rw [PhaseInv, hstate] at hphase
    rw [List.mem_singleton.mp hname]
    exact (hphase.2.selections_le hpos (hselections List.not_mem_nil)).1
  | requestRpsForActionOrder playerNames =>
    obtain ⟨hstate, -, rfl, -⟩ := hawaits
    rw [PhaseInv, hstate] at hphase
    exact hphase.2.1.desired_mem hname
  | requestAction playerName =>
    obtain ⟨-, p, hplayer, -⟩ := hawaits
    rw [List.mem_singleton.mp hname, ← Room.player_isSome, hplayer]
    rfl
  | requestUpgrade playerName =>
    obtain ⟨-, ⟨p, hplayer, -⟩, -⟩ := hawaits
    rw [List.mem_singleton.mp hname, ← Room.player_isSome, hplayer]
    rfl
  | _ => exact absurd hname List.not_mem_nil

/-- What a call emits asks players of the room. -/
def AsksPlayers (logic : Logic (List Signal)) (signal : Signal) : Prop :=
  ∀ name ∈ signal.asks, name ∈ logic.playerSet

theorem asksPlayers_of_call (hreach : system.Reachable self) {c : Call} {ret : Bool}
    (hcall : self.call post c = .ok (ret, self')) :
    Appends self'.AsksPlayers self.env self'.env := by
  have hneg := negotiationInv_invariant.of_reachable (.step hreach ⟨ret, hcall⟩)
  have hissues (hlogic : Issues self.env self') : Appends self'.AsksPlayers self.env self'.env := by
    obtain ⟨signals, henv, -, hall⟩ := hlogic
    refine ⟨signals, henv, fun signal hsignal name hname => ?_⟩
    exact mem_playerSet.mpr (hneg.awaits_mem (hall signal hsignal) name hname)
  have hquiet (henv : self'.env = self.env) : Appends self'.AsksPlayers self.env self'.env := by
    rw [henv]
    exact .refl _
  have hstep := call_cases hcall
  by_cases haccepts : self.d.Accepts c
  · cases hname : c.replier with
    | some name =>
      rcases hstep.issues hname haccepts with ⟨henv, -⟩ | hlogic
      · exact hquiet henv
      · exact hissues hlogic
    | none =>
      cases hstep with
      | rejected | addPlayer | removePlayer => exact hquiet rfl
      | roundStart => exact hissues (enterRpsForAction_issues _ _)
      | _ => cases hname
  · rw [call_of_not_accepts haccepts] at hcall
    cases hcall
    exact hquiet rfl

end Logic

end QMdmmCore
