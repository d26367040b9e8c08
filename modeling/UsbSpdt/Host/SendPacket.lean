import Mathlib.Data.Nat.Find
import UsbSpdt.Host.Encoding
import UsbSpdt.Host.Transmit

/-!
# Sending a packet and reading the reply

`send_packet` whole: the transmit loop, then one `bulk_read` and the decoding of what it leaves.
-/

namespace UsbSpdt.AttenSwitch

open Transmission

/-- What the device does in an exchange: the result of each `bulk_write`, and what `bulk_read`
leaves in its buffer. -/
structure Exchange where
  ret : Nat → Int
  rxbuf : List UInt8

/-- `send_packet` once the packet is out. -/
def receiveReply (rxbuf : List UInt8) : Except Refusal (Status × PacketObject) := do
  let rxPacket ← PacketObject.new.fromBytes (some rxbuf)
  return (if rxPacket.command = some .ack then .success else .fail, rxPacket)

/-- `SendPacket dev packet outcome`: with the device behaving as `dev` says, if there is one,
`send_packet` comes to an end with this outcome. -/
inductive SendPacket :
    Option Exchange → List UInt8 → Except Refusal (Status × PacketObject) → Prop where
  | unconnected (packet : List UInt8) : SendPacket none packet (.ok (.fail, .new))
  | exchanged {x : Exchange} {packet : List UInt8} {n : Nat} (h : Ends packet x.ret n) :
      SendPacket (some x) packet (receiveReply x.rxbuf)

theorem sendPacket_iff {x : Exchange} {packet : List UInt8} {n : Nat} (h : Ends packet x.ret n)
    (outcome : Except Refusal (Status × PacketObject)) :
    SendPacket (some x) packet outcome ↔ outcome = receiveReply x.rxbuf := by
  constructor
  · rintro (_ | _)
    rfl
  · rintro rfl
    exact .exchanged h

theorem receiveReply_toOption (rxbuf : List UInt8) :
    (receiveReply rxbuf).toOption = (Packet.fromBytes rxbuf).map fun rx =>
      (if rx.command = .ack then .success else .fail, PacketObject.ofPacket rx) := by
  have hmap : (receiveReply rxbuf).toOption =
      (PacketObject.new.fromBytes (some rxbuf)).toOption.map fun rx =>
        (if rx.command = some .ack then .success else .fail, rx) := by
    rw [receiveReply]
    cases PacketObject.new.fromBytes (some rxbuf) <;> rfl
  rw [hmap, Packet.fromBytes_eq, Option.map_map]
  congr 1
  funext rx
  simp only [Function.comp_apply, PacketObject.ofPacket, Option.some_inj]

/-- The session that leaves the loop to the library sees the same replies. -/
theorem run_sendPacket {σ : Type} (serve : σ → List UInt8 → List UInt8 × σ) (s : σ) (p : Packet) :
    ((sendPacket p).run serve s).map (fun r => (r.1.1, PacketObject.ofPacket r.1.2)) =
      (receiveReply (serve s p.packet).1).toOption := by
  rw [receiveReply_toOption, sendPacket, Dialogue.run_bind, Dialogue.run_request, Option.bind_some]
  cases Packet.fromBytes (serve s p.packet).1 <;> rfl

/-! ### Replies that are refused -/

theorem receiveReply_ok_iff (rxbuf : List UInt8) :
    (∃ status rx, receiveReply rxbuf = .ok (status, rx)) ↔
      6 ≤ rxbuf.length ∧ (rxbuf.getD 3 0).toNat < 18 := by
  rw [← Command.fromOrdinal_isSome]
  by_cases h : rxbuf.length < 6
  · have hshort := PacketObject.new.fromBytes_short h
    simp only [receiveReply, hshort]
    constructor
    · rintro ⟨status, rx, hok⟩
      cases hok
    · rintro ⟨h6, _⟩
      omega
  · have hwhole := PacketObject.new.fromBytes_whole (Nat.le_of_not_lt h)
    simp only [receiveReply, hwhole]
    cases Command.fromOrdinal (rxbuf.getD 3 0) with
    | none =>
      constructor
      · rintro ⟨status, rx, hok⟩
        cases hok
      · rintro ⟨_, hsome⟩
        cases hsome
    | some c => exact ⟨fun _ => ⟨by omega, rfl⟩, fun _ => ⟨_, _, rfl⟩⟩

/-- `send_packet` returns a status and a packet, and does not raise. -/
def Reports (x : Exchange) (packet : List UInt8) : Prop :=
  (∃ status rx, SendPacket (some x) packet (.ok (status, rx))) ∧
    ∀ refusal, ¬ SendPacket (some x) packet (.error refusal)

/-- Once the packet is out, it depends on the reply alone whether a result is reported. -/
theorem sendPacket_reports_iff {x : Exchange} {packet : List UInt8} {n : Nat}
    (h : Ends packet x.ret n) :
    Reports x packet ↔ 6 ≤ x.rxbuf.length ∧ (x.rxbuf.getD 3 0).toNat < 18 := by
  simp only [Reports, sendPacket_iff h, ← receiveReply_ok_iff]
  constructor
  · rintro ⟨⟨status, rx, hok⟩, _⟩
    exact ⟨status, rx, hok.symm⟩
  · rintro ⟨status, rx, hok⟩
    refine ⟨⟨status, rx, hok.symm⟩, fun refusal hraise => ?_⟩
    rw [hok] at hraise
    cases hraise

/-- The request `ID` goes out in one call. -/
theorem ends_at_once (rxbuf : List UInt8) :
    Ends (frame 3 []) (Exchange.ret ⟨fun _ => 6, rxbuf⟩) 1 :=
  ⟨Nat.one_pos, fun k h0 h1 => by omega, Int.le_of_eq rfl⟩

theorem sendPacket_reports_nak :
    Reports ⟨fun _ => 6, [1, 6, 0, 1, 0, 0]⟩ (frame 3 []) :=
  (sendPacket_reports_iff (ends_at_once _)).mpr (by decide)

theorem empty_reply_raises :
    ¬ ∀ (x : Exchange) (packet : List UInt8) (n : Nat), Ends packet x.ret n → Reports x packet := by
  intro h
  have hends := ends_at_once []
  exact (h _ _ 1 hends).2 .payload (.exchanged hends)

/-! ### Writes that fail or stand still -/

/-- In order, nothing is accepted twice and nothing left out; and the loop ends with the packet out,
or after an error with `FAIL`. -/
def Delivers (x : Exchange) (packet : List UInt8) : Prop :=
  (∀ n, (∀ k, k < n → Calls packet x.ret k) →
    (after (positions packet) x.ret n).accepted <+: positions packet) ∧
  ∃ n, Ends packet x.ret n ∧
    ((after packet x.ret n).accepted = packet ∨
      (∃ k, k < n ∧ x.ret k < 0) ∧ ∃ rx, SendPacket (some x) packet (.ok (.fail, rx)))

/-- The results of finitely many calls add up to the length of the packet, and none is an error. -/
def AddsUp (ret : Nat → Int) (length : Nat) : Prop :=
  ∃ n, 0 < n ∧ (∀ k, k < n → 0 ≤ ret k) ∧ total ret n = length

theorem accepted_length_le {x : Exchange} {packet : List UInt8} {n : Nat}
    (h : (after (positions packet) x.ret n).accepted <+: positions packet) :
    (after packet x.ret n).accepted.length ≤ packet.length := by
  have hle := h.length_le
  rw [accepted_positions, List.length_map]
  rwa [positions, List.length_range] at hle

theorem delivers_addsUp {x : Exchange} {packet : List UInt8} (hret : Accepts packet x.ret)
    (h : Delivers x packet) : AddsUp x.ret packet.length := by
  obtain ⟨hinOrder, n, hends, _⟩ := h
  have hcalls : ∀ k, k < n → Calls packet x.ret k := fun k hk => hends.calls hk
  have hlen := accepted_length_le (hinOrder n hcalls)
  have hsent := hends.2.2
  rw [notSent, txTot_after] at hsent
  obtain ⟨_, hbehind⟩ := txTot_behind hret hcalls
  rw [txTot_after] at hbehind
  have hnoerror : ∀ k, k < n → 0 ≤ x.ret k := by
    intro k hk
    apply Int.not_lt.mp
    intro hneg
    have := hbehind ⟨k, hk, hneg⟩
    omega
  have hle := (inStep_after hret hnoerror hcalls).le
  rw [txTot_after] at hle
  exact ⟨n, hends.1, hnoerror, by omega⟩

theorem addsUp_delivers {x : Exchange} {packet : List UInt8} (hret : Accepts packet x.ret)
    (h : AddsUp x.ret packet.length) : Delivers x packet := by
  obtain ⟨n, hpos, hnoerror, hn⟩ := h
  have hex : ∃ m, 0 < m ∧ (packet.length : Int) ≤ total x.ret m := ⟨n, hpos, by omega⟩
  -- the call that completes the packet
  let m := Nat.find hex
  obtain ⟨hm0, hm⟩ : 0 < m ∧ (packet.length : Int) ≤ total x.ret m := Nat.find_spec hex
  have hmn : m ≤ n := Nat.find_min' hex ⟨hpos, by omega⟩
  have hbefore : ∀ k, 0 < k → k < m → 0 < notSent packet (after packet x.ret k) := by
    intro k h0 hk
    have hnot := Nat.find_min hex hk
    rw [notSent_after]
    omega
  have hends : Ends packet x.ret m := ⟨hm0, hbefore, by rw [notSent_after]; omega⟩
  constructor
  · intro k hk
    have hkm : k ≤ m := by
      apply Nat.le_of_not_lt
      intro hlt
      have hsent := hk m hlt m hm0 (Nat.le_refl m)
      rw [notSent_after] at hsent
      omega
    have hin := inStep_after (accepts_positions hret)
      (fun i hi => hnoerror i (by omega)) (fun i hi => (calls_positions packet).mpr (hk i hi))
    rw [hin.accepted]
    exact List.take_prefix _ _
  · refine ⟨m, hends, .inl ?_⟩
    have hin := inStep_after hret (fun i hi => hnoerror i (by omega)) fun i hi => hends.calls hi
    have hle := hin.le
    rw [hin.accepted]
    apply List.take_of_length_le
    rw [txTot_after] at hle ⊢
    omega

theorem delivers_iff {x : Exchange} {packet : List UInt8} (hret : Accepts packet x.ret) :
    Delivers x packet ↔ AddsUp x.ret packet.length :=
  ⟨delivers_addsUp hret, addsUp_delivers hret⟩

theorem delivers_in_parts : Delivers ⟨fun n => [2, 0, 4].getD n 0, []⟩ (frame 3 []) := by
  have hret : Accepts (frame 3 []) (Exchange.ret ⟨fun n => [2, 0, 4].getD n 0, []⟩) := by
    rintro (_ | _ | _ | n) _
    · decide
    · decide
    · decide
    · exact Int.natCast_nonneg _
  refine (delivers_iff hret).mpr ⟨3, by decide, fun k hk => ?_, by decide⟩
  obtain rfl | rfl | rfl : k = 0 ∨ k = 1 ∨ k = 2 := by omega
  all_goals decide

/-- A timeout makes the total negative, and the packet is written from its start for as long as it
stays so. -/
theorem error_repeats_packet :
    ¬ ∀ (x : Exchange) (packet : List UInt8), Accepts packet x.ret → Delivers x packet := by
  intro h
  have hret : Accepts (frame 3 []) (Exchange.ret ⟨fun n => [-110, 6, 6].getD n 0, []⟩) := by
    rintro (_ | _ | _ | n) _
    · decide
    · decide
    · decide
    · exact Int.natCast_nonneg _
  obtain ⟨n, hn, hnoerror, _⟩ := delivers_addsUp hret (h _ _ hret)
  exact absurd (hnoerror 0 hn) (by decide)

end UsbSpdt.AttenSwitch
