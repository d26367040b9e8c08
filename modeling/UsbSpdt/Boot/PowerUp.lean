import UsbSpdt.Board.Relays
import UsbSpdt.Boot.Identifiers

/-!
# The device after power up

What `readEEprom` leaves of an image for the commands that follow: the polarities in force, the
product id, and relays that stand where they stood.
-/

namespace UsbSpdt

open Program CyclicMemory

instance (m : Image) (array : StringArray) : Decidable (RecordFits m array) :=
  inferInstanceAs (Decidable ((_ ∧ _) ∨ _ < _))

/-! ### The switches -/

def setPolarity (setPulseHigh : Int → Program Board Unit) (polarity : UInt8) :
    Program Board Unit :=
  if polarity = 0 ∨ polarity = 1 then setPulseHigh polarity.toNat else pure ()

/-- What `readEEprom` does to the switches. -/
def bootSwitching (m : Image) : Program Board Unit :=
  if m 0 = magic then do
    setPolarity s1SetPulseHigh (read m 0xE)
    setPolarity s2SetPulseHigh (read m 0xF)
  else pure ()

theorem readEEprom_switching (m : Image) :
    (readEEprom (.powerUp m)).board = ((bootSwitching m).run .powerUp).2 := by
  have hpolarized (set : Int → Program Board Unit) (polarity : UInt8) (b : Board) :
      polarized set polarity b = ((setPolarity set polarity).run b).2 := by
    rw [polarized, setPolarity]
    split <;> rfl
  by_cases h : m 0 = magic
  · rw [readEEprom_board h, hpolarized, hpolarized, bootSwitching, if_pos h, run_bind]
  · rw [bootSwitching, if_neg h, readEEprom, powerUp_read_magic, if_neg h]
    rfl

/-- The address of the polarity byte. -/
def Switch.polarityAddress : Switch → Nat
  | s1 => 0xE
  | s2 => 0xF

/-- The polarities in force after power up; a byte other than 0 and 1 leaves the compiled-in one. -/
def bootPolarity (m : Image) : Wiring := fun s =>
  if m 0 = magic then decide (read m s.polarityAddress ≠ 0) else true

theorem s1SetPulseHigh_run (setting : Int) {b : Board} (h : b.CoilsOff) :
    ((s1SetPulseHigh setting).run b).2.CoilsOff ∧
      ((s1SetPulseHigh setting).run b).2.polarity =
        Function.update b.polarity .s1 (decide (UInt8.ofInt setting ≠ 0)) := by
  refine ⟨(throughout_s1SetPulseHigh setting h).run (noWait_s1SetPulseHigh setting), ?_⟩
  rw [s1SetPulseHigh_eq]
  funext s
  cases s <;> rfl

theorem s2SetPulseHigh_run (setting : Int) {b : Board} (h : b.CoilsOff) :
    ((s2SetPulseHigh setting).run b).2.CoilsOff ∧
      ((s2SetPulseHigh setting).run b).2.polarity =
        Function.update b.polarity .s2 (decide (UInt8.ofInt setting ≠ 0)) := by
  refine ⟨(throughout_s2SetPulseHigh setting h).run (noWait_s2SetPulseHigh setting), ?_⟩
  rw [s2SetPulseHigh_eq]
  funext s
  cases s <;> rfl

/-- A byte other than 0 and 1 leaves a polarity that is high. -/
theorem setPolarity_run {set : Int → Program Board Unit} {s : Switch}
    (hset : ∀ (n : Int) {b : Board}, b.CoilsOff → ((set n).run b).2.CoilsOff ∧
      ((set n).run b).2.polarity = Function.update b.polarity s (decide (UInt8.ofInt n ≠ 0)))
    (polarity : UInt8) {b : Board} (h : b.CoilsOff) (hb : b.polarity s = true) :
    ((setPolarity set polarity).run b).2.CoilsOff ∧
      ((setPolarity set polarity).run b).2.polarity =
        Function.update b.polarity s (decide (polarity ≠ 0)) := by
  unfold setPolarity
  split
  · next hvalue =>
    have hbyte : UInt8.ofInt polarity.toNat = polarity := by
      rcases hvalue with rfl | rfl <;> rfl
    have hrun := hset polarity.toNat h
    rwa [hbyte] at hrun
  · next hvalue =>
    have hne : polarity ≠ 0 := fun h0 => hvalue (Or.inl h0)
    refine ⟨h, ?_⟩
    rw [decide_eq_true hne, ← hb, Function.update_eq_self]
    rfl

/-- The boot leaves all coils off, with the polarities of the image in force. -/
theorem bootSwitching_run (m : Image) :
    ((bootSwitching m).run .powerUp).2.CoilsOff ∧
      ((bootSwitching m).run .powerUp).2.polarity = bootPolarity m := by
  have hstart : Board.powerUp.polarity = fun _ => true := by
    funext s
    cases s <;> rfl
  unfold bootSwitching
  by_cases h : m 0 = magic
  · obtain ⟨hoff, hs1⟩ := setPolarity_run s1SetPulseHigh_run (read m 0xE) powerUp_coilsOff rfl
    have hdefault : ((setPolarity s1SetPulseHigh (read m 0xE)).run .powerUp).2.polarity .s2 =
        true := by
      rw [hs1]
      rfl
    obtain ⟨hoff', hs2⟩ := setPolarity_run s2SetPulseHigh_run (read m 0xF) hoff hdefault
    rw [if_pos h, run_bind]
    refine ⟨hoff', ?_⟩
    rw [hs2, hs1]
    funext s
    cases s <;> exact (if_pos h).symm
  · rw [if_neg h]
    refine ⟨powerUp_coilsOff, ?_⟩
    funext s
    exact (congrFun hstart s).trans (if_neg h).symm

/-- The boot touches the coils, their enable and the polarities, and nothing else. -/
theorem acts_bootSwitching {S : Board → Board → Prop}
    (henable : ∀ (v : Bool) (b : Board), S b (b.drive .swEnable v))
    (hcoil : ∀ (c : Coil) (v : Bool) (b : Board), S b (b.drive c.pin v))
    (hs1 : ∀ (n : UInt8) (b : Board), S b { b with s1PulseHigh := n })
    (hs2 : ∀ (n : UInt8) (b : Board), S b { b with s2PulseHigh := n }) (m : Image) :
    Acts S (bootSwitching m) := by
  have hset1 (n : Int) : Acts S (s1SetPulseHigh n) := by
    rw [s1SetPulseHigh_eq]
    exact ⟨henable false, hs1 _, fun _ => ⟨hcoil .s1d _, hcoil .s1u _, trivial⟩⟩
  have hset2 (n : Int) : Acts S (s2SetPulseHigh n) := by
    rw [s2SetPulseHigh_eq]
    exact ⟨henable false, hs2 _, fun _ => ⟨hcoil .s2d _, hcoil .s2u _, trivial⟩⟩
  have hpolarity {set : Int → Program Board Unit} (hset : ∀ n, Acts S (set n))
      (polarity : UInt8) : Acts S (setPolarity set polarity) := by
    unfold setPolarity
    split
    · exact hset _
    · trivial
  unfold bootSwitching
  split
  · exact acts_bind (hpolarity hset1 _) fun _ => hpolarity hset2 _
  · trivial

theorem noWait_bootSwitching (m : Image) : NoWait (bootSwitching m) := by
  have hset {set : Int → Program Board Unit} (hset : ∀ n, NoWait (set n)) (polarity : UInt8) :
      NoWait (setPolarity set polarity) := by
    unfold setPolarity
    split
    · exact hset _
    · trivial
  unfold bootSwitching
  split
  · exact noWait_bind (hset noWait_s1SetPulseHigh _) fun _ => hset noWait_s2SetPulseHigh _
  · trivial

/-- It waits for nothing, so no coil pulls long enough to move a relay. -/
theorem bootSwitching_during (w : Wiring) (m : Image) (r : Relays) (b : Board) :
    r.during w (bootSwitching m) b = r := by
  rw [Relays.during, ((noWait_bootSwitching m).timed Board.elapse b).2, List.foldl_nil]

/-- It leaves the supply as the power found it. -/
theorem bootSwitching_supply (m : Image) :
    ((bootSwitching m).run .powerUp).2.supply = .atRest := by
  have hacts : Acts (fun b t : Board => t.supply = b.supply) (bootSwitching m) :=
    acts_bootSwitching (Board.supply_drive (by decide))
      (fun c => Board.supply_drive (by cases c <;> decide)) (fun _ _ => rfl) (fun _ _ => rfl) m
  exact hacts.run (S := fun b t : Board => t.supply = b.supply) (fun _ => rfl)
    (fun hbt htu => htu.trans hbt) .powerUp

/-! ### The rest -/

def bootProductID (m : Image) : UInt16 :=
  if m 0 = magic then adopted (LittleEndian.word (read m 3) (read m 4)) 0x00ff else 0x00ff

theorem readEEprom_productID (m : Image) :
    (readEEprom (.powerUp m)).identity.productID = bootProductID m := by
  by_cases h : m 0 = magic
  · rw [readEEprom_ids h, bootProductID, if_pos h]
  · rw [bootProductID, if_neg h, readEEprom, powerUp_read_magic, if_neg h]
    rfl

theorem readEEprom_eeprom (b : Boot) : (readEEprom b).eeprom = b.eeprom := by
  unfold readEEprom
  split
  · simp only [readPolarity_eeprom, readString_eeprom, (readProductID_frame _).1,
      (readVendorID_frame _).1]
  · rfl

/-- The stores at boot stay in their arrays. -/
def BootFits (m : Image) : Prop :=
  m 0 = magic → RecordFits m .manufacturer ∧ RecordFits m .product ∧ RecordFits m .serialNumber

instance (m : Image) : Decidable (BootFits m) := inferInstanceAs (Decidable (_ → _ ∧ _ ∧ _))

theorem bootFits_iff (m : Image) :
    (∀ st ∈ (readEEprom (.powerUp m)).stores, st.InBounds) ↔ BootFits m := by
  by_cases h : m 0 = magic
  · simp [readEEprom_records h, BootFits, h]
  · simp [readEEprom_no_magic h, BootFits, h]

end UsbSpdt
