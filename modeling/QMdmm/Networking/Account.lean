import QMdmm.Core.Packet

namespace QMdmmNetworking

open QMdmmCore Protocol

/-- What some packets amount to: the rounds that have started, the round events since
the last start, and all the upgrades. -/
structure Account where
  rounds : Nat
  events : List Packet
  upgrades : List Packet

namespace Account

/-- A packet that the server logs and the client counts. -/
def isRoundEvent (packet : Packet) : Bool :=
  match packet.notifyId with
  | .NotifyRockPaperScissors | .NotifyActionOrder | .NotifyAction | .NotifyUpgrade => true
  | _ => false

def isRoundStart (packet : Packet) : Bool := packet.notifyId = .NotifyRoundStart

def isUpgrade (packet : Packet) : Bool := packet.notifyId = .NotifyUpgrade

def new : Account := ⟨0, [], []⟩

def add (account : Account) (packet : Packet) : Account where
  rounds := if isRoundStart packet then account.rounds + 1 else account.rounds
  events :=
    if isRoundStart packet then []
    else if isRoundEvent packet then account.events ++ [packet]
    else account.events
  upgrades := if isUpgrade packet then account.upgrades ++ [packet] else account.upgrades

def addAll (account : Account) (packets : List Packet) : Account := packets.foldl add account

/-- The same events of a round that has started, and the same upgrades. -/
def Agrees (account other : Account) : Prop :=
  0 < account.rounds ∧ account.events = other.events ∧ account.upgrades = other.upgrades

variable {account : Account} {packets : List Packet}

theorem addAll_append (account : Account) (packets rest : List Packet) :
    account.addAll (packets ++ rest) = (account.addAll packets).addAll rest :=
  List.foldl_append

theorem addAll_cons (account : Account) (packet : Packet) (rest : List Packet) :
    account.addAll (packet :: rest) = (account.add packet).addAll rest := rfl

theorem rounds_addAll (account : Account) (packets : List Packet) :
    (account.addAll packets).rounds = account.rounds + packets.countP isRoundStart := by
  induction packets generalizing account with
  | nil => rfl
  | cons packet rest ih =>
    rw [addAll_cons, ih, List.countP_cons, add]
    dsimp only
    split <;> omega

theorem upgrades_addAll (account : Account) (packets : List Packet) :
    (account.addAll packets).upgrades = account.upgrades ++ packets.filter isUpgrade := by
  induction packets generalizing account with
  | nil => exact (List.append_nil _).symm
  | cons packet rest ih =>
    rw [addAll_cons, ih, List.filter_cons, add]
    dsimp only
    split <;> simp

/-- Without a new start, the events are added up. -/
theorem events_addAll (hnone : packets.countP isRoundStart = 0) :
    (account.addAll packets).events = account.events ++ packets.filter isRoundEvent := by
  induction packets generalizing account with
  | nil => exact (List.append_nil _).symm
  | cons packet rest ih =>
    rw [List.countP_cons] at hnone
    have hpacket : isRoundStart packet = false := by
      by_contra hstart
      rw [if_pos (by simpa using hstart)] at hnone
      omega
    rw [addAll_cons, ih (by omega), List.filter_cons, add]
    simp only [hpacket, Bool.false_eq_true, if_false]
    split <;> simp

theorem upgrade_isRoundEvent {packet : Packet} (hupgrade : isUpgrade packet = true) :
    isRoundEvent packet = true := by
  rw [isRoundEvent, of_decide_eq_true hupgrade]

/-- Without a new start, only the events count. -/
theorem addAll_filter (hnone : packets.countP isRoundStart = 0) :
    account.addAll (packets.filter isRoundEvent) = account.addAll packets := by
  have hsub : (packets.filter isRoundEvent).countP isRoundStart = 0 :=
    List.countP_eq_zero.mpr fun packet hpacket =>
      List.countP_eq_zero.mp hnone packet (List.mem_filter.mp hpacket).1
  have hrounds : (account.addAll (packets.filter isRoundEvent)).rounds = (account.addAll packets).rounds := by
    rw [rounds_addAll, rounds_addAll, hsub, hnone]
  have hevents : (account.addAll (packets.filter isRoundEvent)).events = (account.addAll packets).events := by
    rw [events_addAll hsub, events_addAll hnone, List.filter_filter]
    simp only [Bool.and_self]
  have hupgrades :
      (account.addAll (packets.filter isRoundEvent)).upgrades = (account.addAll packets).upgrades := by
    rw [upgrades_addAll, upgrades_addAll, List.filter_filter]
    refine congrArg _ (List.filter_congr fun packet _ => ?_)
    cases hupgrade : isUpgrade packet with
    | false => rfl
    | true => rw [upgrade_isRoundEvent hupgrade, Bool.and_self]
  calc account.addAll (packets.filter isRoundEvent)
      = ⟨(account.addAll packets).rounds, (account.addAll packets).events, (account.addAll packets).upgrades⟩ := by
        rw [← hrounds, ← hevents, ← hupgrades]
    _ = account.addAll packets := rfl

/-- A round is under way: every earlier one has ended with its upgrades. -/
structure Whole (account : Account) : Prop where
  rounds : account.rounds = account.upgrades.length + 1
  events : ∀ packet ∈ account.events, isRoundStart packet = false ∧ isUpgrade packet = false

/-- Between two rounds, after the upgrades of the one, or before the first. -/
structure Cut (account : Account) : Prop where
  rounds : account.rounds = account.upgrades.length
  events : account.rounds = 0 ∨ ∃ packet ∈ account.events, isUpgrade packet = true

/-- Upgrades come at the end of a round and a start after them. -/
def Flows (account : Account) : List Packet → Prop
  | [] => True
  | packet :: rest =>
    (isUpgrade packet = true → account.Whole) ∧ (isRoundStart packet = true → account.Cut) ∧
      (account.add packet).Flows rest

theorem flows_append {rest : List Packet} :
    account.Flows (packets ++ rest) ↔ account.Flows packets ∧ (account.addAll packets).Flows rest := by
  induction packets generalizing account with
  | nil => exact ⟨fun h => ⟨trivial, h⟩, fun h => h.2⟩
  | cons packet packets ih => simp only [List.cons_append, Flows, ih, addAll_cons, and_assoc]

theorem not_isUpgrade_of_isRoundStart {packet : Packet} (hstart : isRoundStart packet = true) :
    isUpgrade packet = false := by
  rw [isUpgrade, of_decide_eq_true hstart]
  rfl

theorem Whole.add_upgrade (h : account.Whole) {packet : Packet} (hupgrade : isUpgrade packet = true) :
    (account.add packet).Cut := by
  have hstart : isRoundStart packet = false := by
    by_contra hstart
    have hnot := not_isUpgrade_of_isRoundStart (by simpa using hstart)
    rw [hupgrade] at hnot
    cases hnot
  constructor
  · simp [add, hstart, hupgrade, h.rounds]
  · exact .inr ⟨packet, by simp [add, hstart, upgrade_isRoundEvent hupgrade], hupgrade⟩

theorem Cut.add_roundStart (h : account.Cut) {packet : Packet} (hstart : isRoundStart packet = true) :
    (account.add packet).Whole := by
  constructor
  · simp [add, hstart, not_isUpgrade_of_isRoundStart hstart, h.rounds]
  · simp [add, hstart]

/-- Any other packet leaves an account in its round. -/
theorem Whole.add (h : account.Whole) {packet : Packet} (hstart : isRoundStart packet = false)
    (hupgrade : isUpgrade packet = false) : (account.add packet).Whole := by
  constructor
  · simp [Account.add, hstart, hupgrade, h.rounds]
  · intro other hother
    simp only [Account.add, hstart, Bool.false_eq_true, if_false] at hother
    split at hother
    · obtain hold | hnew := List.mem_append.mp hother
      · exact h.events other hold
      · rw [List.mem_singleton.mp hnew]
        exact ⟨hstart, hupgrade⟩
    · exact h.events other hother

/-- And between the same two. -/
theorem Cut.add (h : account.Cut) {packet : Packet} (hstart : isRoundStart packet = false)
    (hupgrade : isUpgrade packet = false) : (account.add packet).Cut := by
  constructor
  · simp [Account.add, hstart, hupgrade, h.rounds]
  · simp only [Account.add, hstart, Bool.false_eq_true, if_false]
    refine h.events.imp_right fun ⟨other, hother, hlast⟩ => ⟨other, ?_, hlast⟩
    split
    · exact List.mem_append_left _ hother
    · exact hother

theorem whole_or_cut_add (h : account.Whole ∨ account.Cut) {packet : Packet}
    (hupgrade : isUpgrade packet = true → account.Whole)
    (hstart : isRoundStart packet = true → account.Cut) :
    (account.add packet).Whole ∨ (account.add packet).Cut := by
  cases hisStart : isRoundStart packet with
  | true => exact .inl ((hstart hisStart).add_roundStart hisStart)
  | false =>
    cases hisUpgrade : isUpgrade packet with
    | true => exact .inr ((hupgrade hisUpgrade).add_upgrade hisUpgrade)
    | false => exact h.imp (fun h => h.add hisStart hisUpgrade) fun h => h.add hisStart hisUpgrade

theorem events_add_roundStart {packet : Packet} (hstart : isRoundStart packet = true) :
    (account.add packet).events = [] :=
  if_pos hstart

theorem cut_new : new.Cut := ⟨rfl, .inl rfl⟩

/-- Events of a round can come at any time of it. -/
theorem flows_of_events (hstart : packets.countP isRoundStart = 0)
    (hupgrade : packets.countP isUpgrade = 0) : account.Flows packets := by
  induction packets generalizing account with
  | nil => trivial
  | cons packet rest ih =>
    rw [List.countP_cons] at hstart hupgrade
    refine ⟨fun hpacket => ?_, fun hpacket => ?_, ih (by omega) (by omega)⟩
    · rw [if_pos hpacket] at hupgrade
      omega
    · rw [if_pos hpacket] at hstart
      omega

theorem length_upgrades_addAll (account : Account) (packets : List Packet) :
    (account.addAll packets).upgrades.length =
      account.upgrades.length + packets.countP isUpgrade := by
  rw [upgrades_addAll, List.length_append, List.countP_eq_length_filter]

/-- Within a round, all that can be missing is events of it. -/
theorem counts_of_rounds_eq (h : account.Whole ∨ account.Cut) (hsent : (account.addAll packets).Whole)
    (hrounds : account.rounds = (account.addAll packets).rounds) :
    packets.countP isRoundStart = 0 ∧ packets.countP isUpgrade = 0 := by
  have hsent := hsent.rounds
  have hlength := length_upgrades_addAll account packets
  have hcount := rounds_addAll account packets
  rcases h with hwhole | hcut
  · have hseen := hwhole.rounds
    omega
  · have hseen := hcut.rounds
    omega

/-- Events alone do not lead into another round. -/
theorem not_agrees_of_rounds_ne {sent : Account} (h : account.Whole ∨ account.Cut)
    (hsent : sent.Whole) (hrounds : account.rounds ≠ sent.rounds)
    (hstart : packets.countP isRoundStart = 0) (hupgrade : packets.countP isUpgrade = 0) :
    ¬ (account.addAll packets).Agrees sent := by
  rintro ⟨hpos, hevents, hupgrades⟩
  have hlength := length_upgrades_addAll account packets
  have hcount := rounds_addAll account packets
  have hwhole := hsent.rounds
  rw [hupgrades, hupgrade] at hlength
  rcases h with hseen | hcut
  · have hseen := hseen.rounds
    omega
  · obtain hzero | ⟨packet, hpacket, hlast⟩ := hcut.events
    · omega
    · -- The upgrades that the client knows of are no event of the server's round.
      have hmember : packet ∈ sent.events := by
        rw [← hevents, events_addAll hstart]
        exact List.mem_append_left _ hpacket
      rw [(hsent.events packet hmember).2] at hlast
      cases hlast

end Account

end QMdmmNetworking
