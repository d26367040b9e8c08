import UsbSpdt.Host.Instrument

/-!
# A provisioned instrument

The polarity bytes take effect at the next power up. From then on, and through any power cycle, the
relays go where the host sends them, as long as it leaves these bytes alone.
-/

namespace UsbSpdt

open AttenSwitch CyclicMemory

/-- The magic byte and the polarity bytes. -/
def polarityCells : List Nat := [0, 0xE, 0xF]

/-- The memory makes the firmware go by the wiring. -/
structure StoresPolarity (w : Wiring) (m : Image) : Prop where
  magic : read m 0 = magic
  polarity : ∀ s, read m s.polarityAddress = if w s then 1 else 0

theorem StoresPolarity.boot {w : Wiring} {m : Image} (h : StoresPolarity w m) :
    bootPolarity m = w := by
  funext s
  have h0 : m 0 = UsbSpdt.magic := h.magic
  rw [bootPolarity, if_pos h0, h.polarity]
  cases w s <;> rfl

theorem StoresPolarity.congr {w : Wiring} {m m' : Image} (h : StoresPolarity w m)
    (hsame : ∀ c ∈ polarityCells, read m' c = read m c) : StoresPolarity w m' where
  magic := (hsame 0 (by decide)).trans h.magic
  polarity := by
    intro s
    rw [← h.polarity s]
    apply hsame
    cases s <;> decide

/-- The call leaves the polarity bytes and the magic byte alone. -/
def AttenSwitch.Call.SparesPolarity : Call → Prop
  | .ee (.writeEE addr val) => ∀ k < val.length, ∀ c ∈ polarityCells, (addr + k) % 512 ≠ (c : Int)
  | .ee .eraseAllEE => False
  | .eeMagic val => val = none
  | .eePolarity s1pol _ => s1pol = none
  | .writeEEStrings mfg prd ser extra => (mfg ++ prd ++ ser ++ extra).length ≤ 464
  | _ => True

theorem putAt_untouched {m : Image} {addr : Int} {val : List UInt8} {c : Nat} (hc : c < 512)
    (h : ∀ k < val.length, (addr + k) % 512 ≠ (c : Int)) :
    read (m.putAt addr val) c = read m c := by
  induction val generalizing m addr with
  | nil => rfl
  | cons x val ih =>
    rw [Image.putAt, ih]
    · have hne : Fin.ofNat 512 c ≠ cellOf addr := by
        have h0 := h 0 (by simp)
        rw [cellOf, ne_eq, ofNat_eq_iff]
        omega
      exact Function.update_of_ne hne x m
    · intro k hk
      have hnext := h (k + 1) (by simpa using hk)
      push_cast at hnext
      rwa [Int.add_assoc, Int.add_comm 1]

theorem call_spares {w : Wiring} {t t' : Instrument} {c : Call} {a : Answer}
    (hspares : c.SparesPolarity) (h : t.call w c = some (a, t')) :
    (∀ i ∈ polarityCells, read t'.image i = read t.image i) ∧ t'.polarity = t.polarity := by
  have hsame {u : Instrument} {b : Answer} (hu : some (b, u) = some (a, t'))
      (himage : ∀ i ∈ polarityCells, read u.image i = read t.image i)
      (hpolarity : u.polarity = t.polarity) :
      (∀ i ∈ polarityCells, read t'.image i = read t.image i) ∧ t'.polarity = t.polarity := by
    obtain ⟨-, rfl⟩ := Prod.mk.inj (Option.some.inj hu)
    exact ⟨himage, hpolarity⟩
  cases c with
  | identify =>
    obtain ⟨productID, -, heq⟩ := Option.map_eq_some_iff.mp h
    exact hsame (congrArg some heq) (fun _ _ => rfl) rfl
  | ee call =>
    cases call with
    | readEE addr n => exact hsame h (fun _ _ => rfl) rfl
    | writeEE addr val =>
      refine hsame h ?_ rfl
      intro i hi
      have h512 : i < 512 := by
        revert i
        decide
      exact putAt_untouched h512 fun k hk => hspares k hk i hi
    | eraseAllEE => exact absurd hspares id
  | eeMagic val =>
    obtain rfl : val = none := hspares
    exact hsame h (fun _ _ => rfl) rfl
  | eeVidPid vid pid =>
    cases pid with
    | none => exact hsame h (fun _ _ => rfl) rfl
    | some pid =>
      refine hsame h ?_ rfl
      intro i hi
      apply read_store_untouched
      intro k hk
      have hk4 : k < 4 := hk
      have hcell : i = 0 ∨ i = 0xE ∨ i = 0xF := by simpa [polarityCells] using hi
      omega
  | readEEStrings => exact hsame h (fun _ _ => rfl) rfl
  | writeEEStrings mfg prd ser extra =>
    refine hsame h ?_ rfl
    intro i hi
    have hconfig : i ∈ configAddresses := by
      revert i
      decide
    exact strings_fit_keep_config hspares t.image hconfig
  | eePolarity s1pol s2pol =>
    obtain rfl : s1pol = none := hspares
    exact hsame h (fun _ _ => rfl) rfl
  | _ => exact hsame h (fun _ _ => rfl) rfl

/-! ### Runs -/

def HostEvent.SparesPolarity : HostEvent → Prop
  | .call c => c.SparesPolarity
  | .idle _ => True
  | .powerCycle _ => True

/-- The relay that a call names goes where the call says. -/
def HostEvent.moves (r : Relays) : HostEvent → Relays
  | .call (.spdt sw set) => Function.update r sw.switch (some set.connector)
  | _ => r

/-- An instrument that goes by the wiring, now and after a power cycle, with a supply that comes up
when it is turned on. -/
structure Instrument.Wired (w : Wiring) (t : Instrument) : Prop where
  provisioned : StoresPolarity w t.image
  polarity : t.polarity = w
  supply : t.supply.Sound

theorem Supply.Sound.selected {s : Supply} (h : s.Sound) : s.selected.Sound := by
  rw [Supply.selected, h.turnOn]
  exact (Supply.sound_up _).elapse latchTicks

/-- With a sound supply a command always moves its relay. -/
theorem Relays.command_sound {supply : Supply} (h : supply.Sound) (w polarity : Wiring)
    (r : Relays) (s : Switch) (j : Connector) :
    r.command w polarity supply s j = r.select w polarity s j := by
  rw [Relays.command, h.turnOn, if_pos rfl]

theorem call_moves {w : Wiring} {t t' : Instrument} {c : Call} {a : Answer} (hw : t.Wired w)
    (h : t.call w c = some (a, t')) :
    t'.relays = HostEvent.moves t.relays (.call c) ∧ t'.supply.Sound := by
  have hkept {u : Instrument} {b : Answer} (hu : some (b, u) = some (a, t')) :
      t'.relays = u.relays ∧ t'.supply = u.supply := by
    obtain ⟨-, rfl⟩ := Prod.mk.inj (Option.some.inj hu)
    exact ⟨rfl, rfl⟩
  have hbeside {u : Instrument} {b : Answer} (hu : some (b, u) = some (a, t'))
      (hrelays : u.relays = t.relays) (hsupply : u.supply = t.supply) :
      t'.relays = t.relays ∧ t'.supply.Sound := by
    obtain ⟨hr, hs⟩ := hkept hu
    refine ⟨hr.trans hrelays, ?_⟩
    rw [hs, hsupply]
    exact hw.supply
  cases c with
  | spdt sw set =>
    obtain ⟨hrelays, hsupply⟩ := hkept h
    refine ⟨?_, ?_⟩
    · rw [hrelays, hw.polarity]
      exact (t.relays.command_sound hw.supply w w sw.switch set.connector).trans
        (Relays.select_wired w t.relays sw.switch set.connector)
    · rw [hsupply]
      exact hw.supply.selected
  | identify =>
    obtain ⟨productID, -, heq⟩ := Option.map_eq_some_iff.mp h
    exact hbeside (congrArg some heq) rfl rfl
  | ee call => cases call <;> exact hbeside h rfl rfl
  | eeMagic val => cases val <;> exact hbeside h rfl rfl
  | eeVidPid vid pid => cases pid <;> exact hbeside h rfl rfl
  | eePolarity s1pol s2pol => cases s1pol <;> exact hbeside h rfl rfl
  | _ => exact hbeside h rfl rfl

theorem step_wired {w : Wiring} {t t' : Instrument} {e : HostEvent} {a : Option Answer}
    (hspares : e.SparesPolarity) (hw : t.Wired w) (h : t.step w e = some (a, t')) :
    t'.Wired w ∧ t'.relays = e.moves t.relays := by
  cases e with
  | call c =>
    obtain ⟨⟨b, u⟩, hcall, heq⟩ := Option.map_eq_some_iff.mp h
    obtain ⟨-, rfl⟩ := Prod.mk.inj heq
    obtain ⟨hsame, hpolarity⟩ := call_spares hspares hcall
    obtain ⟨hrelays, hsupply⟩ := call_moves hw hcall
    exact ⟨⟨hw.provisioned.congr hsame, hpolarity.trans hw.polarity, hsupply⟩, hrelays⟩
  | idle ticks =>
    obtain ⟨-, rfl⟩ := Prod.mk.inj (Option.some.inj h)
    exact ⟨⟨hw.provisioned, hw.polarity, hw.supply.elapse ticks⟩, rfl⟩
  | powerCycle stale =>
    obtain ⟨u, hcycle, heq⟩ := Option.map_eq_some_iff.mp h
    obtain ⟨-, rfl⟩ := Prod.mk.inj heq
    obtain rfl := Option.some.inj (Option.ite_none_right_eq_some.mp hcycle).2
    exact ⟨⟨hw.provisioned, hw.provisioned.boot, Supply.sound_atRest⟩, rfl⟩

theorem run_wired {w : Wiring} {t t' : Instrument} {es : List HostEvent}
    {answers : List (Option Answer)} (hspares : ∀ e ∈ es, e.SparesPolarity) (hw : t.Wired w)
    (h : Service.tryRun (Instrument.step w) t es = some (answers, t')) :
    t'.relays = es.foldl HostEvent.moves t.relays := by
  induction es generalizing t answers with
  | nil =>
    obtain ⟨-, rfl⟩ := Prod.mk.inj (Option.some.inj h)
    rfl
  | cons e es ih =>
    obtain ⟨a, u, answers', hstep, hrest, -⟩ := Service.tryRun_cons_some h
    obtain ⟨hw', hrelays⟩ := step_wired (hspares e List.mem_cons_self) hw hstep
    rw [List.foldl_cons, ← hrelays]
    exact ih (fun e' he' => hspares e' (List.mem_cons_of_mem e he')) hw' hrest

/-! ### Provisioning -/

/-- How a host makes a controller go by its wiring. -/
def provisionPolarity (w : Wiring) (stale : Nat → Item) : List HostEvent :=
  [.call (.eeMagic (some 0xAA)), .call (.eePolarity (some (w .s1).toNat) (some (w .s2).toNat)),
    .powerCycle stale]

/-- What it leaves in the memory: a polarity of 0 for S2 gives way to that of S1. -/
def polarityImage (w : Wiring) (m : Image) : Image :=
  store (store m 0 [0xAA]) 0xe [if w .s1 then 1 else 0, if w .s1 || w .s2 then 1 else 0]

theorem read_polarityImage (w : Wiring) (m : Image) :
    read (polarityImage w m) 0 = 0xAA ∧
      read (polarityImage w m) 0xE = (if w .s1 then 1 else 0) ∧
      read (polarityImage w m) 0xF = (if w .s1 || w .s2 then 1 else 0) ∧
      ∀ c < 0xE, 0 < c → read (polarityImage w m) c = read m c := by
  have hother (m : Image) (c : Nat) (hc : c < 0xE) (x y : UInt8) :
      read (store m 0xe [x, y]) c = read m c := by
    apply read_store_untouched
    intro k hk
    have hk2 : k < 2 := hk
    omega
  refine ⟨?_, ?_, ?_, ?_⟩
  · rw [polarityImage, hother _ _ (by decide)]
    exact read_write_same m 0xAA rfl
  · rw [polarityImage, store, store, store, read_write_ne _ _ (by decide), read_write_same _ _ rfl]
  · rw [polarityImage, store, store, store, read_write_same _ _ rfl]
  · intro c hc hpos
    rw [polarityImage, hother _ _ hc]
    apply read_store_untouched
    intro k hk
    have hk1 : k < 1 := hk
    omega

theorem storesPolarity_iff (w : Wiring) (m : Image) :
    StoresPolarity w (polarityImage w m) ↔ (w .s1 = true → w .s2 = true) := by
  obtain ⟨h0, hE, hF, -⟩ := read_polarityImage w m
  constructor
  · intro h hs1
    have hs2 := h.polarity .s2
    rw [Switch.polarityAddress, hF, hs1] at hs2
    by_contra hne
    rw [Bool.not_eq_true] at hne
    rw [hne] at hs2
    exact absurd hs2 (by decide)
  · intro h
    refine ⟨h0, fun s => ?_⟩
    cases s with
    | s1 => exact hE
    | s2 =>
      rw [Switch.polarityAddress, hF]
      cases hs1 : w .s1 with
      | false => rfl
      | true => rw [h hs1]; rfl

/-- With a polarity that gave way, S2 goes to the wrong side. -/
theorem thrown_by_lost_polarity {w : Wiring} (hs1 : w .s1 = true) (hs2 : ¬ w .s2 = true) (m : Image)
    (r : Relays) :
    r.command w (bootPolarity (polarityImage w m)) .atRest .s2 .j1 .s2 = some .j2 := by
  obtain ⟨h0, -, hF, -⟩ := read_polarityImage w m
  have hmagic : polarityImage w m 0 = magic := h0
  have hpolarity : bootPolarity (polarityImage w m) .s2 = true := by
    rw [bootPolarity, if_pos hmagic, Switch.polarityAddress, hF, hs1]
    rfl
  rw [r.command_sound Supply.sound_atRest]
  simp [Relays.select, hpolarity, hs2, Connector.other]

theorem bootFits_polarityImage {w : Wiring} {m : Image}
    (h : ∀ array, RecordFits m array) : BootFits (polarityImage w m) := by
  obtain ⟨-, -, -, hsame⟩ := read_polarityImage w m
  have hfits (array : StringArray) : RecordFits (polarityImage w m) array := by
    have harray := h array
    unfold RecordFits at harray ⊢
    have hrange : 0 < array.record.toNat ∧ array.record.toNat + 2 < 0xE := by
      cases array <;> decide
    dsimp only at harray ⊢
    rwa [hsame _ (by omega) (by omega), hsame _ (by omega) (by omega),
      hsame _ (by omega) (by omega)]
  exact fun _ => ⟨hfits _, hfits _, hfits _⟩

theorem run_provisionPolarity {w : Wiring} {t : Instrument} (stale : Nat → Item)
    (h : ∀ array, RecordFits t.image array) (es : List HostEvent) :
    ∃ answers, Service.tryRun (Instrument.step w) t (provisionPolarity w stale ++ es) =
      (Service.tryRun (Instrument.step w) { t with
        supply := .atRest
        image := polarityImage w t.image
        polarity := bootPolarity (polarityImage w t.image)
        productID := bootProductID (polarityImage w t.image) } es).map
          fun r => (answers ++ r.1, r.2) := by
  have hbytes : ∀ a b : Bool, packC (if a.toNat ≠ 0 then 1 else 0) ++
      packC (if orDefault (some b.toNat) a.toNat ≠ 0 then 1 else 0) =
        [if a then 1 else 0, if a || b then 1 else 0] := by
    decide
  have hfits := bootFits_polarityImage (w := w) h
  have hmemory : (t.put 0 (packC (0xAA &&& 0xff))).put 0xe
      (packC (if (w .s1).toNat ≠ 0 then 1 else 0) ++
        packC (if orDefault (some (w .s2).toNat) (w .s1).toNat ≠ 0 then 1 else 0)) =
      { t with image := polarityImage w t.image } := by
    rw [hbytes]
    rfl
  refine ⟨[some (.number 0xAA),
    some (.pair ((w .s1).toNat, orDefault (some (w .s2).toNat) (w .s1).toNat)), none], ?_⟩
  simp only [provisionPolarity, List.cons_append, List.nil_append, Service.tryRun, Instrument.step,
    Instrument.call, Option.map_some, Option.bind_some, hmemory, Instrument.powerCycle,
    if_pos hfits, Option.map_map]
  rfl

/-- After the polarities of the wiring have been set and the power has come back, the relays follow
every run that leaves the polarity bytes alone exactly unless S1 is pulsed high and S2 low. -/
theorem polarity_provisioned_iff (w : Wiring) (residue : List UInt8 → List UInt8) {p : Plant}
    (hidle : p.device.inEp = none) (hoff : p.device.firmware.board.CoilsOff)
    (hfits : ∀ array, RecordFits p.device.image array) (stale : Nat → Item) :
    (∀ es answers q, (∀ e ∈ es, HostEvent.SparesPolarity e) →
      Service.tryRun (Plant.step w residue) p (provisionPolarity w stale ++ es) =
          some (answers, q) →
        q.relays = es.foldl HostEvent.moves p.relays) ↔ (w .s1 = true → w .s2 = true) := by
  have hview (es : List HostEvent) := tryRun_instrument w residue ⟨hidle, hoff⟩ es
  constructor
  · intro h hs1
    by_contra hs2
    obtain ⟨firsts, hprovision⟩ := run_provisionPolarity (t := p.instrument) (w := w) stale hfits
      [.call (.spdt .sw2 .j1sel)]
    have himage := hview (provisionPolarity w stale ++ [.call (.spdt .sw2 .j1sel)])
    rw [hprovision] at himage
    obtain ⟨⟨answers, q⟩, hrun, heq⟩ := Option.map_eq_some_iff.mp himage
    have hthrown : q.relays .s2 = some .j2 := by
      have hrelays := congrArg Instrument.relays (congrArg Prod.snd heq)
      exact (congrFun hrelays .s2).trans
        (thrown_by_lost_polarity hs1 hs2 p.instrument.image p.relays)
    have hnamed := h _ answers q (by simp [HostEvent.SparesPolarity, Call.SparesPolarity]) hrun
    rw [hnamed] at hthrown
    exact absurd hthrown (by simp [HostEvent.moves, SpdtSel.switch, SpdtSetting.connector])
  · intro hw es answers q hspares hrun
    obtain ⟨firsts, hprovision⟩ := run_provisionPolarity (t := p.instrument) (w := w) stale hfits es
    have himage := hview (provisionPolarity w stale ++ es)
    rw [hrun, hprovision] at himage
    obtain ⟨⟨answers', t⟩, ht, heq⟩ := Option.map_eq_some_iff.mp himage.symm
    have hprovisioned := (storesPolarity_iff w p.instrument.image).mpr hw
    have hrelays := run_wired hspares ⟨hprovisioned, hprovisioned.boot, Supply.sound_atRest⟩ ht
    obtain ⟨-, rfl⟩ := Prod.mk.inj heq
    exact hrelays

/-- S1 is pulsed low and S2 high. -/
def provisionAndSelect : List HostEvent :=
  provisionPolarity (· == .s2) (fun _ _ => 0) ++ [.call (.spdt .sw2 .j2sel),
    .powerCycle fun _ _ => 0, .call (.spdt .sw1 .j2sel), .call (.spdt .sw2 .j1sel)]

theorem run_provisionAndSelect :
    (Service.tryRun (Instrument.step (· == .s2)) (newPlant fun _ => 0).instrument
      provisionAndSelect).isSome = true := by
  decide +kernel

theorem polarity_provisioned_s2_high : ∃ answers q,
    Service.tryRun (Plant.step (· == .s2) fun _ => []) (newPlant fun _ => 0) provisionAndSelect =
      some (answers, q) ∧ q.relays .s1 = some .j2 ∧ q.relays .s2 = some .j1 := by
  have hfollows := (polarity_provisioned_iff (· == .s2) (fun _ => []) (p := newPlant fun _ => 0) rfl
    powerUp_coilsOff (fun _ => Or.inl ⟨rfl, rfl⟩) fun _ _ => 0).mpr (by decide)
  obtain ⟨r, hr⟩ := Option.isSome_iff_exists.mp run_provisionAndSelect
  have hview := tryRun_instrument (· == .s2) (fun _ => []) (p := newPlant fun _ => 0)
    ⟨rfl, powerUp_coilsOff⟩ provisionAndSelect
  rw [hr] at hview
  obtain ⟨⟨answers, q⟩, hq, -⟩ := Option.map_eq_some_iff.mp hview
  have hrelays := hfollows _ answers q
    (by simp [HostEvent.SparesPolarity, Call.SparesPolarity]) hq
  exact ⟨answers, q, hq, by rw [hrelays]; rfl, by rw [hrelays]; rfl⟩

end UsbSpdt
