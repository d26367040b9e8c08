import UsbSpdt.Host.Array
import UsbSpdt.Host.Identify
import UsbSpdt.Host.Strings

/-!
# The calls of the host library

The methods of `AttenSwitch.pm` that talk to a connected device, each with any arguments. All of
them but `spdt` send only frames that leave the switches alone.
-/

namespace UsbSpdt

namespace AttenSwitch

inductive SpdtSel where
  | sw1 | sw2
  deriving DecidableEq, Repr

inductive SpdtSetting where
  | j1sel | j2sel
  deriving DecidableEq, Repr

def SpdtSel.ordinal : SpdtSel → Nat
  | sw1 => 0
  | sw2 => 1

def SpdtSetting.ordinal : SpdtSetting → Nat
  | j1sel => 0
  | j2sel => 1

/-- `pack("V", …)`. -/
def packVLong (n : Nat) : List UInt8 := packV n ++ packV (n / 65536)

def sp8t (sel : Fin 8) : Session Status := do
  let (res, _) ← sendPacket (.make .sp8t (packC sel))
  pure res

def spdt (sw : SpdtSel) (set : SpdtSetting) : Session Status := do
  let (res, _) ← sendPacket (.make .spdt (packC sw.ordinal ++ packC set.ordinal))
  pure res

def atten (sel : Fin 8) : Session Status := do
  let (res, _) ← sendPacket (.make .att (packC sel))
  pure res

/-- The colours after `uc`. -/
def stacklightColor (color : List UInt8) : Nat :=
  let has (upper lower : UInt8) : Bool := color.contains upper || color.contains lower
  (if has 0x52 0x72 then 1 else 0) ||| (if has 0x59 0x79 then 2 else 0) |||
    if has 0x47 0x67 then 4 else 0

def stacklightNotify (color : List UInt8) (onTime offTime count : Nat) : Session Status := do
  let (res, _) ← sendPacket (.make .notify
    (packC (stacklightColor color) ++ packVLong onTime ++ packVLong offTime ++ packVLong count))
  pure res

/-- The getters and setters of `AttenSwitch.pm` read when their first argument is `undef`,
`eeVidPid` when its second one is. -/
inductive Call where
  | sp8t (sel : Fin 8)
  | spdt (sw : SpdtSel) (set : SpdtSetting)
  | atten (sel : Fin 8)
  | stacklightNotify (color : List UInt8) (onTime offTime count : Nat)
  | ee (call : EECall)
  | identify
  | blink (on : Nat)
  | eeMagic (val : Option Nat)
  | eeVidPid (vid pid : Option Nat)
  | readEEStrings
  | writeEEStrings (mfg prd ser extra : List UInt8)
  | eePolarity (s1pol s2pol : Option Nat)

inductive Answer where
  | status (s : Status)
  | bytes (l : List UInt8)
  | info (p : ProdInfo)
  | number (n : Nat)
  | pair (p : Nat × Nat)
  | strings (l : List (List UInt8))
  | done

def Call.session : Call → Session Answer
  | sp8t sel => do pure (.status (← AttenSwitch.sp8t sel))
  | spdt sw set => do pure (.status (← AttenSwitch.spdt sw set))
  | atten sel => do pure (.status (← AttenSwitch.atten sel))
  | stacklightNotify color onTime offTime count => do
    pure (.status (← AttenSwitch.stacklightNotify color onTime offTime count))
  | ee .eraseAllEE => do pure (.status (← AttenSwitch.eraseAllEE))
  | ee call => do pure (.bytes (← call.session))
  | identify => do pure (.info (← AttenSwitch.identify))
  | blink on => do pure (.status (← AttenSwitch.blink on))
  | eeMagic val => do pure (.number (← eeMagicOf val))
  | eeVidPid vid pid => do pure (.pair (← AttenSwitch.eeVidPid vid pid))
  | readEEStrings => do pure (.strings (← AttenSwitch.readEEStrings))
  | writeEEStrings mfg prd ser extra => do
    AttenSwitch.writeEEStrings mfg prd ser extra
    pure .done
  | eePolarity s1pol s2pol => do pure (.pair (← AttenSwitch.eePolarity s1pol s2pol))

end AttenSwitch

open AttenSwitch

/-- Frames of commands other than `CMD_SPDT`. -/
def OtherFrame (bytes : List UInt8) : Prop :=
  ∃ (t : PktType) (payload : List UInt8), t ≠ .spdt ∧ payload.length ≤ 58 ∧
    bytes = frame t.toByte payload

theorem asks_sendPacket {t : PktType} (ht : t ≠ .spdt) {payload : List UInt8}
    (h58 : payload.length ≤ 58) :
    Dialogue.Asks OtherFrame (sendPacket (.make t.toCommand payload)) := by
  refine ⟨⟨t, payload, ht, h58, make_packet t payload⟩, fun rxbuf => ?_⟩
  simp only [Dialogue.bind]
  split <;> trivial

theorem asks_status {t : PktType} (ht : t ≠ .spdt) {payload : List UInt8}
    (h58 : payload.length ≤ 58) : Dialogue.Asks OtherFrame (do
      let (res, _) ← sendPacket (.make t.toCommand payload)
      pure res) :=
  Dialogue.asks_bind (asks_sendPacket ht h58) fun _ => trivial

theorem asks_readEEInt (addr : Int) (n : Nat) : Dialogue.Asks OtherFrame (readEEInt addr n) := by
  induction n generalizing addr with
  | zero => trivial
  | succ n ih =>
    apply Dialogue.asks_bind (asks_sendPacket (t := .readee) (by decide) (by simp [packVInt]))
    exact fun _ => Dialogue.asks_bind (ih (addr + 1)) fun _ => trivial

theorem asks_writeEEInt (addr : Int) (val : List UInt8) :
    Dialogue.Asks OtherFrame (writeEEInt addr val) := by
  induction val generalizing addr with
  | nil => trivial
  | cons x val ih =>
    apply Dialogue.asks_bind (asks_sendPacket (t := .writeee) (by decide) (by simp [packVInt]))
    exact fun _ => ih (addr + 1)

theorem asks_readEE (addr n : Nat) : Dialogue.Asks OtherFrame (readEE addr n) := by
  rw [← readEEInt_natCast]
  exact asks_readEEInt addr n

theorem asks_writeEE (addr : Nat) (val : List UInt8) :
    Dialogue.Asks OtherFrame (writeEE addr val) := by
  rw [← writeEEInt_natCast]
  exact asks_writeEEInt addr val

theorem asks_readEEString (ptr len : Nat) : Dialogue.Asks OtherFrame (readEEString ptr len) := by
  unfold readEEString
  split
  · exact asks_readEE ptr len
  · trivial

theorem asks_writeEEString (record addr : Nat) (string : List UInt8) :
    Dialogue.Asks OtherFrame (writeEEString record addr string) := by
  unfold writeEEString
  split
  · exact Dialogue.asks_bind (asks_writeEE _ _) fun _ =>
      Dialogue.asks_bind (asks_writeEE _ _) fun _ => trivial
  · exact Dialogue.asks_bind (asks_writeEE _ _) fun _ => trivial

theorem asks_readEEStrings : Dialogue.Asks OtherFrame readEEStrings := by
  unfold readEEStrings
  refine Dialogue.asks_bind (asks_readEE _ _) fun _ => ?_
  refine Dialogue.asks_bind (asks_readEE _ _) fun _ => ?_
  refine Dialogue.asks_bind (asks_readEE _ _) fun _ => ?_
  refine Dialogue.asks_bind (asks_readEE _ _) fun _ => ?_
  refine Dialogue.asks_bind (asks_readEEString _ _) fun _ => ?_
  refine Dialogue.asks_bind (asks_readEEString _ _) fun _ => ?_
  refine Dialogue.asks_bind (asks_readEEString _ _) fun _ => ?_
  exact Dialogue.asks_bind (asks_readEEString _ _) fun _ => trivial

theorem asks_writeEEStrings (mfg prd ser extra : List UInt8) :
    Dialogue.Asks OtherFrame (writeEEStrings mfg prd ser extra) := by
  unfold writeEEStrings
  refine Dialogue.asks_bind (asks_writeEEString _ _ _) fun _ => ?_
  refine Dialogue.asks_bind (asks_writeEEString _ _ _) fun _ => ?_
  refine Dialogue.asks_bind (asks_writeEEString _ _ _) fun _ => ?_
  exact Dialogue.asks_bind (asks_writeEEString _ _ _) fun _ => trivial

theorem asks_identify : Dialogue.Asks OtherFrame identify := by
  apply Dialogue.asks_bind (asks_sendPacket (t := .id) (by decide) (by decide))
  intro r
  dsimp only
  split <;> trivial

theorem asks_eeMagicOf (val : Option Nat) : Dialogue.Asks OtherFrame (eeMagicOf val) := by
  cases val with
  | none => exact Dialogue.asks_bind (asks_readEE 0 1) fun _ => trivial
  | some val => exact Dialogue.asks_bind (asks_writeEE 0 _) fun _ => trivial

theorem asks_eeVidPid (vid pid : Option Nat) : Dialogue.Asks OtherFrame (eeVidPid vid pid) := by
  cases pid with
  | none => exact Dialogue.asks_bind (asks_readEE 1 4) fun _ => trivial
  | some pid => exact Dialogue.asks_bind (asks_writeEE 1 _) fun _ => trivial

theorem asks_eePolarity (s1pol s2pol : Option Nat) :
    Dialogue.Asks OtherFrame (eePolarity s1pol s2pol) := by
  cases s1pol with
  | none => exact Dialogue.asks_bind (asks_readEE 0xe 2) fun _ => trivial
  | some s1pol => exact Dialogue.asks_bind (asks_writeEE 0xe _) fun _ => trivial

theorem asks_call {call : Call} (h : ∀ sw set, call ≠ .spdt sw set) :
    Dialogue.Asks OtherFrame call.session := by
  have hanswer {α : Type} {s : Session α} (hs : Dialogue.Asks OtherFrame s) (f : α → Answer) :
      Dialogue.Asks OtherFrame (do pure (f (← s))) :=
    Dialogue.asks_bind hs fun _ => trivial
  cases call with
  | spdt sw set => exact absurd rfl (h sw set)
  | sp8t sel => exact hanswer (asks_status (t := .sp8t) (by decide) (by simp [packC])) _
  | atten sel => exact hanswer (asks_status (t := .att) (by decide) (by simp [packC])) _
  | stacklightNotify color onTime offTime count =>
    exact hanswer (asks_status (t := .notify) (by decide)
      (by simp [packC, packV, packVLong])) _
  | ee call =>
    cases call with
    | readEE addr nbytes => exact hanswer (asks_readEEInt addr nbytes) _
    | writeEE addr val =>
      have hwrite : Dialogue.Asks OtherFrame (EECall.writeEE addr val).session :=
        Dialogue.asks_bind (asks_writeEEInt addr val) fun _ => trivial
      exact hanswer hwrite _
    | eraseAllEE => exact hanswer (asks_status (t := .eraseall) (by decide) (by decide)) _
  | identify => exact hanswer asks_identify _
  | blink on => exact hanswer (asks_status (t := .blink) (by decide) (by simp [packC])) _
  | eeMagic val => exact hanswer (asks_eeMagicOf val) _
  | eeVidPid vid pid => exact hanswer (asks_eeVidPid vid pid) _
  | readEEStrings => exact hanswer asks_readEEStrings _
  | writeEEStrings mfg prd ser extra =>
    exact Dialogue.asks_bind (asks_writeEEStrings mfg prd ser extra) fun _ => trivial
  | eePolarity s1pol s2pol => exact hanswer (asks_eePolarity s1pol s2pol) _

end UsbSpdt
