import UsbSpdt.Host.Instrument
import UsbSpdt.Library.CString

/-!
# A bench of controllers

Several controllers on the bus of a host, and an object of the library that connects to them, one at
a time. What it has connected to first settles what it connects to from then on.
-/

namespace UsbSpdt

open AttenSwitch

/-- What a device enumerates with. -/
structure Descriptor where
  idVendor : Nat
  idProduct : Nat
  serialNumber : List UInt8
  deriving DecidableEq

/-- What a boot from a memory leaves in the descriptors. -/
def enumerated (compiledIn : StringArray → Nat → UInt8) (m : Image) : Descriptor :=
  let boot := readEEprom (.powerUp m)
  let arrays := load compiledIn boot.stores
  { idVendor := boot.identity.idVendor.toNat
    idProduct := boot.identity.idProduct.toNat
    serialNumber := CString.stringAt
      ((List.range StringArray.serialNumber.size).map (arrays .serialNumber)) 0 }

/-- The slot `dev`: nothing before the first connection, a device that is open or has been switched
off since, and `undef` after `disconnect`. -/
inductive DevSlot (ι : Type) where
  | unset
  | live (i : ι)
  | gone
  | undef

/-- The attributes of an `AttenSwitch` that `connect` looks at. -/
structure Dut (ι : Type) where
  vid : Option Nat
  pid : Option Nat
  serial : Option (List UInt8)
  device : Option ι
  dev : DevSlot ι

namespace Dut

variable {ι : Type} (identity : ι → Descriptor)

def validPids : List Nat := [0x00ff, 0x0003, 0x0001, 0x0002, 0x0004]

/-- The test of `find_device` and, with a serial number, of `find_device_if`. -/
def accepts (self : Dut ι) (vid pid : Nat) (i : ι) : Bool :=
  (identity i).idVendor = vid && (identity i).idProduct = pid &&
    match self.serial with
    | none => true
    | some serial => (identity i).serialNumber = serial

/-- The loops of `connect` over what the bus lists. -/
def search (self : Dut ι) (bus : List ι) : Option ι :=
  (self.vid.elim [validVid] ([·])).findSome? fun vid =>
    (self.pid.elim validPids ([·])).findSome? fun pid =>
      bus.find? (self.accepts identity vid pid)

/-- The devices that it would take, the first one first. -/
def candidates (self : Dut ι) (bus : List ι) : List ι :=
  (self.vid.elim [validVid] ([·])).flatMap fun vid =>
    (self.pid.elim validPids ([·])).flatMap fun pid => bus.filter (self.accepts identity vid pid)

theorem findSome?_head? {α β : Type} (l : List α) (f : α → List β) :
    l.findSome? (fun a => (f a).head?) = (l.flatMap f).head? := by
  induction l with
  | nil => rfl
  | cons a l ih =>
    rw [List.findSome?_cons, List.flatMap_cons, List.head?_append, ih]
    cases (f a).head? <;> rfl

theorem search_eq (self : Dut ι) (bus : List ι) :
    self.search identity bus = (self.candidates identity bus).head? := by
  simp only [search, candidates, ← findSome?_head?, List.head?_filter]

/-- What `connect` does once it has `FOUND` a device. -/
def found (self : Dut ι) (i : ι) : Dut ι where
  vid := some (identity i).idVendor
  pid := some (identity i).idProduct
  serial := some (identity i).serialNumber
  device := self.device
  dev := .live i

/-- A device that is open goes. -/
def switchedOff [DecidableEq ι] (self : Dut ι) (i : ι) : Dut ι :=
  { self with
    dev := match self.dev with
      | .live j => if j = i then .gone else .live j
      | slot => slot }

theorem switchedOff_live [DecidableEq ι] {self : Dut ι} {i j : ι}
    (h : (self.switchedOff i).dev = .live j) : self.dev = .live j ∧ j ≠ i := by
  unfold switchedOff at h
  cases hdev : self.dev with
  | live k =>
    simp only [hdev] at h
    split at h
    · cases h
    · next hne =>
      obtain rfl := DevSlot.live.inj h
      exact ⟨rfl, hne⟩
  | unset => simp [hdev] at h
  | gone => simp [hdev] at h
  | undef => simp [hdev] at h

end Dut

/-- The controllers, with what they have enumerated with, and the object. -/
structure Bench (ι : Type) where
  plants : ι → Plant
  identity : ι → Descriptor
  dut : Dut ι

inductive BenchEvent (ι : Type) where
  /-- `connect`, with what the bus lists then. -/
  | connect (bus : List ι)
  | disconnect
  | call (c : Call)
  /-- Time that passes for all controllers, also while one of them is called. -/
  | idle (ticks : Nat)
  | powerCycle (i : ι) (stale : Nat → Item)

/-- `undefs` is a pair of two undefined values. -/
inductive BenchAnswer where
  | status (s : Status)
  | answer (a : Answer)
  | undefs
  | done

/-- What a method returns when `dev` is undefined: every `send_packet` in it fails, with a new
packet that has no payload, of which `identify` dies. -/
def AttenSwitch.Call.undefined : Call → Option BenchAnswer
  | .sp8t _ | .spdt .. | .atten _ | .stacklightNotify .. | .blink _ =>
    some (.answer (.status .fail))
  | .ee .eraseAllEE => some (.answer (.status .fail))
  | .ee _ => some (.answer (.bytes []))
  | .identify => none
  | .eeMagic none => some (.answer (.number 0))
  | .eeMagic (some val) => some (.answer (.number (val &&& 0xff)))
  | .eeVidPid _ none => some .undefs
  | .eeVidPid vid (some pid) =>
    some (.answer (.pair (orDefault vid validVid &&& 0xffff, pid &&& 0xffff)))
  | .readEEStrings => some (.answer (.strings [[], [], [], []]))
  | .writeEEStrings .. => some (.answer .done)
  | .eePolarity none _ => some .undefs
  | .eePolarity (some s1pol) s2pol => some (.answer (.pair (s1pol, orDefault s2pol s1pol)))

namespace Bench

variable {ι : Type} [DecidableEq ι] (w : ι → Wiring) (residue : List UInt8 → List UInt8)
  (compiledIn : ι → StringArray → Nat → UInt8)

/-- A session with one of the controllers. -/
def talk {α : Type} (b : Bench ι) (i : ι) (s : Session α) : Option (α × Bench ι) :=
  (s.run (Plant.serve (w i) residue) (b.plants i)).map fun r =>
    (r.1, { b with plants := Function.update b.plants i r.2 })

/-- `connect`; it dies when `identify` does. -/
def connect (b : Bench ι) (bus : List ι) : Option (Status × Bench ι) :=
  match b.dut.device.or (b.dut.search b.identity bus) with
  | none => some (.fail, b)
  | some i =>
    (talk w residue { b with dut := b.dut.found b.identity i } i identify).map fun r =>
      (.success, r.2)

/-- Before the first connection `dev` connects and then dies, since what `connect` returns is no
device. A transfer to a device that is gone fails, and `send_packet` goes on trying. -/
def call (b : Bench ι) (c : Call) : Option (BenchAnswer × Bench ι) :=
  match b.dut.dev with
  | .unset => none
  | .live i => (b.talk w residue i c.session).map fun r => (.answer r.1, r.2)
  | .gone =>
    match c.session with
    | .done a => some (.answer a, b)
    | _ => none
  | .undef => c.undefined.map fun a => (a, b)

/-- There is nothing to release when `dev` is undefined. -/
def disconnect (b : Bench ι) : Option (Bench ι) :=
  match b.dut.dev with
  | .live _ | .gone => some { b with dut := { b.dut with dev := .undef } }
  | .unset | .undef => none

def step (b : Bench ι) : BenchEvent ι → Option (BenchAnswer × Bench ι)
  | .connect bus => (b.connect w residue bus).map fun r => (.status r.1, r.2)
  | .disconnect => b.disconnect.map fun b => (.done, b)
  | .call c => b.call w residue c
  | .idle ticks => some (.done, { b with
      plants := fun i => (b.plants i).operate (w i) (Program.block ticks) })
  | .powerCycle i stale =>
    ((b.plants i).powerCycle (w i) stale).map fun p => (.done, {
      plants := Function.update b.plants i p
      identity := Function.update b.identity i (enumerated (compiledIn i) p.device.image)
      dut := b.dut.switchedOff i })

end Bench

/-! ### One identity -/

/-- The object asks for one identity, and holds no device of another. -/
structure Bench.Pinned {ι : Type} (b : Bench ι) (id : Descriptor) : Prop where
  vid : b.dut.vid = some id.idVendor
  pid : b.dut.pid = some id.idProduct
  serial : b.dut.serial = some id.serialNumber
  device : b.dut.device = none
  dev : ∀ i, b.dut.dev = .live i → b.identity i = id

/-- What happens to a controller whatever the object does. -/
def BenchEvent.own {ι : Type} [DecidableEq ι] (j : ι) : BenchEvent ι → Option HostEvent
  | .idle ticks => some (.idle ticks)
  | .powerCycle i stale => if i = j then some (.powerCycle stale) else none
  | _ => none

/-- What happens to a controller that nobody calls. -/
def Plant.alone (w : Wiring) (residue : List UInt8 → List UInt8) (p : Plant) (hs : List HostEvent) :
    Option Plant :=
  Events.run (fun p h => (p.step w residue h).map Prod.snd) p hs

namespace Bench

variable {ι : Type} {b : Bench ι} {id : Descriptor}

/-- It takes the first device of that identity. -/
theorem Pinned.search (h : b.Pinned id) (bus : List ι) :
    b.dut.search b.identity bus = bus.find? fun i => b.identity i = id := by
  have haccepts (i : ι) : b.dut.accepts b.identity id.idVendor id.idProduct i =
      decide (b.identity i = id) := by
    have hext : b.identity i = id ↔ ((b.identity i).idVendor = id.idVendor ∧
        (b.identity i).idProduct = id.idProduct) ∧
          (b.identity i).serialNumber = id.serialNumber := by
      rw [Descriptor.mk.injEq, and_assoc]
    rw [Dut.accepts, h.serial, Bool.eq_iff_iff]
    simp only [Bool.and_eq_true, decide_eq_true_eq, hext]
  have hfind : bus.find? (b.dut.accepts b.identity id.idVendor id.idProduct) =
      bus.find? fun i => b.identity i = id := by
    rw [funext haccepts]
  simp only [Dut.search, h.vid, h.pid, Option.elim_some, List.findSome?_cons, List.findSome?_nil,
    hfind]
  cases bus.find? fun i => b.identity i = id <;> rfl

theorem Pinned.congr {b' : Bench ι} (h : b.Pinned id) (hdut : b'.dut = b.dut)
    (hidentity : b'.identity = b.identity) : b'.Pinned id where
  vid := hdut ▸ h.vid
  pid := hdut ▸ h.pid
  serial := hdut ▸ h.serial
  device := hdut ▸ h.device
  dev := by rw [hdut, hidentity]; exact h.dev

theorem pinned_found (hdevice : b.dut.device = none) (i : ι) :
    Pinned { b with dut := b.dut.found b.identity i } (b.identity i) := by
  refine ⟨rfl, rfl, rfl, hdevice, ?_⟩
  intro k hk
  obtain rfl : i = k := DevSlot.live.inj hk
  rfl

variable [DecidableEq ι] (w : ι → Wiring) (residue : List UInt8 → List UInt8)
  (compiledIn : ι → StringArray → Nat → UInt8)

theorem talk_some {α : Type} {s : Session α} {i : ι} {a : α} {b' : Bench ι}
    (h : b.talk w residue i s = some (a, b')) :
    b'.identity = b.identity ∧ b'.dut = b.dut ∧ ∀ j ≠ i, b'.plants j = b.plants j := by
  obtain ⟨r, -, heq⟩ := Option.map_eq_some_iff.mp h
  obtain ⟨-, rfl⟩ := Prod.mk.inj heq
  exact ⟨rfl, rfl, fun j hj => Function.update_of_ne hj _ _⟩

/-- A power cycle leaves the memory as it was. -/
theorem powerCycle_image {v : Wiring} {p q : Plant} {stale : Nat → Item}
    (h : p.powerCycle v stale = some q) : q.device.image = p.device.image := by
  simp only [Plant.powerCycle, Option.ite_none_right_eq_some, Option.some.injEq] at h
  rw [← h.2]
  simp only [Device.image, readEEprom_eeprom]
  rfl

/-- `j` has another identity, and keeps one if it boots from its memory in what follows. -/
structure Other (b : Bench ι) (id : Descriptor) (es : List (BenchEvent ι)) (j : ι) : Prop where
  identity : b.identity j ≠ id
  memory : (∃ stale, .powerCycle j stale ∈ es) →
    enumerated (compiledIn j) (b.plants j).device.image ≠ id

/-- Between the two nothing but its own events happens to a controller of another identity. -/
def Spares (b b' : Bench ι) (id : Descriptor) (e : BenchEvent ι) : Prop :=
  ∀ es j, b.Other compiledIn id (e :: es) j → b'.Other compiledIn id es j ∧
    (b.plants j).alone (w j) residue (e.own j).toList = some (b'.plants j)

variable {w residue compiledIn} {b' : Bench ι} {e : BenchEvent ι}

omit [DecidableEq ι] in
theorem Other.tail {es : List (BenchEvent ι)} {j : ι} (h : b.Other compiledIn id (e :: es) j)
    (hidentity : b'.identity = b.identity)
    (himage : (b'.plants j).device.image = (b.plants j).device.image) :
    b'.Other compiledIn id es j := by
  refine ⟨by rw [hidentity]; exact h.identity, ?_⟩
  rintro ⟨stale, hmem⟩
  rw [himage]
  exact h.memory ⟨stale, List.mem_cons_of_mem e hmem⟩

theorem spares_of_kept (hown : ∀ j, e.own j = none) (hidentity : b'.identity = b.identity)
    (hplants : ∀ j, b.identity j ≠ id → b'.plants j = b.plants j) :
    b.Spares w residue compiledIn b' id e := by
  intro es j hj
  have hplant := hplants j hj.identity
  refine ⟨hj.tail hidentity (by rw [hplant]), ?_⟩
  rw [hown, hplant]
  rfl

/-- Talk with a controller of the identity, by an object that is pinned to it. -/
theorem Pinned.talk {α : Type} {b₁ b₂ : Bench ι} {s : Session α} {i : ι} {x : α}
    (hpinned : b₁.Pinned id) (hidentity : b₁.identity = b.identity)
    (hplants : b₁.plants = b.plants) (hi : b.identity i = id) (hown : ∀ j, e.own j = none)
    (htalk : b₁.talk w residue i s = some (x, b₂)) :
    b₂.Pinned id ∧ b.Spares w residue compiledIn b₂ id e := by
  obtain ⟨hidentity₂, hdut, hothers⟩ := talk_some w residue htalk
  refine ⟨hpinned.congr hdut hidentity₂, spares_of_kept hown (hidentity₂.trans hidentity) ?_⟩
  intro j hj
  rw [hothers j fun heq => hj (heq ▸ hi), hplants]

/-- A power cycle concerns one controller, which comes back with what its memory enumerates. -/
theorem Pinned.powerCycle (h : b.Pinned id) {i : ι} {stale : Nat → Item} {p : Plant}
    (hcycle : (b.plants i).powerCycle (w i) stale = some p) :
    let b' : Bench ι := {
      plants := Function.update b.plants i p
      identity := Function.update b.identity i (enumerated (compiledIn i) p.device.image)
      dut := b.dut.switchedOff i }
    b'.Pinned id ∧ b.Spares w residue compiledIn b' id (.powerCycle i stale) := by
  refine ⟨⟨h.vid, h.pid, h.serial, h.device, ?_⟩, ?_⟩
  · intro k hk
    obtain ⟨hdev, hki⟩ := Dut.switchedOff_live hk
    exact (Function.update_of_ne hki _ _).trans (h.dev k hdev)
  · intro es j hj
    by_cases hij : i = j
    · subst hij
      have himage := powerCycle_image hcycle
      have hmemory := hj.memory ⟨stale, List.mem_cons_self⟩
      refine ⟨⟨?_, fun _ => ?_⟩, ?_⟩
      · simpa only [Function.update_self, himage] using hmemory
      · simpa only [Function.update_self, himage] using hmemory
      · simp only [BenchEvent.own, if_true, Option.toList_some, Plant.alone, Events.run_cons,
          Events.run_nil, Plant.step, hcycle, Option.map_some, Option.bind_some,
          Function.update_self]
    · have hji : j ≠ i := fun heq => hij heq.symm
      refine ⟨⟨?_, ?_⟩, ?_⟩
      · simpa only [Function.update_of_ne hji] using hj.identity
      · rintro ⟨stale', hmem⟩
        simpa only [Function.update_of_ne hji] using
          hj.memory ⟨stale', List.mem_cons_of_mem _ hmem⟩
      · simp only [BenchEvent.own, if_neg hij, Function.update_of_ne hji]
        rfl

/-- A step of an object that is pinned to an identity leaves the controllers of others alone. -/
theorem Pinned.step (h : b.Pinned id) {a : BenchAnswer}
    (hs : b.step w residue compiledIn e = some (a, b')) :
    b'.Pinned id ∧ b.Spares w residue compiledIn b' id e := by
  cases e with
  | connect bus =>
    obtain ⟨⟨res, b₁⟩, hconnect, heq⟩ := Option.map_eq_some_iff.mp hs
    obtain ⟨-, rfl⟩ := Prod.mk.inj heq
    rw [connect, h.device, Option.none_or, h.search bus] at hconnect
    cases hfind : bus.find? fun i => b.identity i = id with
    | none =>
      rw [hfind] at hconnect
      obtain ⟨-, rfl⟩ := Prod.mk.inj (Option.some.inj hconnect)
      exact ⟨h, spares_of_kept (fun _ => rfl) rfl fun _ _ => rfl⟩
    | some i =>
      have hi : b.identity i = id := by simpa using List.find?_some hfind
      rw [hfind] at hconnect
      obtain ⟨⟨info, b₂⟩, hrun, heq⟩ := Option.map_eq_some_iff.mp hconnect
      obtain ⟨-, rfl⟩ := Prod.mk.inj heq
      have hpinned : Pinned { b with dut := b.dut.found b.identity i } id :=
        hi ▸ pinned_found h.device i
      exact hpinned.talk rfl rfl hi (fun _ => rfl) hrun
  | disconnect =>
    obtain ⟨b₁, hdisconnect, heq⟩ := Option.map_eq_some_iff.mp hs
    obtain ⟨-, rfl⟩ := Prod.mk.inj heq
    have hundef : { b with dut := { b.dut with dev := .undef } } = b₁ := by
      unfold disconnect at hdisconnect
      split at hdisconnect
      · exact Option.some.inj hdisconnect
      · exact Option.some.inj hdisconnect
      · cases hdisconnect
      · cases hdisconnect
    rw [← hundef]
    refine ⟨⟨h.vid, h.pid, h.serial, h.device, ?_⟩, ?_⟩
    · intro i hi
      cases hi
    · exact spares_of_kept (fun _ => rfl) rfl fun _ _ => rfl
  | call c =>
    change b.call w residue c = some (a, b') at hs
    unfold call at hs
    split at hs
    · cases hs
    · next i hdev =>
      obtain ⟨⟨x, b₁⟩, hrun, heq⟩ := Option.map_eq_some_iff.mp hs
      obtain ⟨-, rfl⟩ := Prod.mk.inj heq
      exact h.talk rfl rfl (h.dev i hdev) (fun _ => rfl) hrun
    · split at hs
      · obtain ⟨-, rfl⟩ := Prod.mk.inj (Option.some.inj hs)
        exact ⟨h, spares_of_kept (fun _ => rfl) rfl fun _ _ => rfl⟩
      · cases hs
    · obtain ⟨x, -, heq⟩ := Option.map_eq_some_iff.mp hs
      obtain ⟨-, rfl⟩ := Prod.mk.inj heq
      exact ⟨h, spares_of_kept (fun _ => rfl) rfl fun _ _ => rfl⟩
  | idle ticks =>
    obtain ⟨-, rfl⟩ := Prod.mk.inj (Option.some.inj hs)
    exact ⟨h.congr rfl rfl, fun es j hj => ⟨hj.tail rfl rfl, rfl⟩⟩
  | powerCycle i stale =>
    obtain ⟨p, hcycle, heq⟩ := Option.map_eq_some_iff.mp hs
    obtain ⟨-, rfl⟩ := Prod.mk.inj heq
    exact h.powerCycle hcycle

theorem Pinned.run (h : b.Pinned id) {es : List (BenchEvent ι)} {answers : List BenchAnswer}
    {b' : Bench ι}
    (hr : Service.tryRun (Bench.step w residue compiledIn) b es = some (answers, b')) :
    b'.Pinned id ∧ ∀ j, b.Other compiledIn id es j →
      (b.plants j).alone (w j) residue (es.filterMap (·.own j)) = some (b'.plants j) := by
  induction es generalizing b answers with
  | nil =>
    obtain ⟨-, rfl⟩ := Prod.mk.inj (Option.some.inj hr)
    exact ⟨h, fun _ _ => rfl⟩
  | cons e es ih =>
    obtain ⟨a, b₁, answers', hs, hrest, -⟩ := Service.tryRun_cons_some hr
    obtain ⟨h₁, hothers⟩ := h.step hs
    obtain ⟨h', hothers'⟩ := ih h₁ hrest
    refine ⟨h', ?_⟩
    intro j hj
    obtain ⟨hj₁, hstep⟩ := hothers es j hj
    have hown : (e :: es).filterMap (·.own j) = (e.own j).toList ++ es.filterMap (·.own j) := by
      cases hown : e.own j <;> simp [hown]
    rw [hown, Plant.alone, Events.run_append]
    rw [Plant.alone] at hstep
    rw [hstep]
    exact hothers' j hj₁

/-- The first device that is found is the one that the object is pinned to. -/
theorem connect_success {bus : List ι} {b' : Bench ι} (hdevice : b.dut.device = none)
    (h : b.connect w residue bus = some (.success, b')) :
    ∃ i, (b.dut.candidates b.identity bus).head? = some i ∧ b'.Pinned (b.identity i) ∧
      b'.identity = b.identity ∧ ∀ j ≠ i, b'.plants j = b.plants j := by
  rw [connect, hdevice, Option.none_or, Dut.search_eq] at h
  cases hfound : (b.dut.candidates b.identity bus).head? with
  | none =>
    rw [hfound] at h
    cases h
  | some i =>
    rw [hfound] at h
    obtain ⟨⟨info, b₁⟩, htalk, heq⟩ := Option.map_eq_some_iff.mp h
    obtain ⟨-, rfl⟩ := Prod.mk.inj heq
    obtain ⟨hidentity, hdut, hplants⟩ := talk_some w residue htalk
    exact ⟨i, rfl, (pinned_found hdevice i).congr hdut hidentity, hidentity, hplants⟩

/-- A pinned object fails to connect exactly when no device of its identity is listed. -/
theorem Pinned.connect_fail_iff (h : b.Pinned id) (bus : List ι) :
    b.connect w residue bus = some (.fail, b) ↔ ∀ i ∈ bus, b.identity i ≠ id := by
  rw [connect, h.device, Option.none_or, h.search bus]
  cases hfind : bus.find? fun i => b.identity i = id with
  | none =>
    refine iff_of_true rfl ?_
    simpa using List.find?_eq_none.mp hfind
  | some i =>
    have hi : b.identity i = id := by simpa using List.find?_some hfind
    refine iff_of_false ?_ (fun hnone => hnone i (List.mem_of_find?_eq_some hfind) hi)
    intro heq
    obtain ⟨r, -, hr⟩ := Option.map_eq_some_iff.mp heq
    cases hr

end Bench

/-- An object connects first to the first device in the order of its ids and of the bus. From then
on, through any calls, disconnections, power cycles and further connections, nothing happens to a
controller of another identity but what happens to it alone, if it boots with another identity; and
the object fails to connect exactly where no device of the identity is listed. -/
theorem one_identity {ι : Type} [DecidableEq ι] (w : ι → Wiring)
    (residue : List UInt8 → List UInt8) (compiledIn : ι → StringArray → Nat → UInt8)
    {b b₁ b₂ : Bench ι} (hdevice : b.dut.device = none) {bus : List ι}
    (hfirst : b.connect w residue bus = some (.success, b₁)) {es : List (BenchEvent ι)}
    {answers : List BenchAnswer}
    (hr : Service.tryRun (Bench.step w residue compiledIn) b₁ es = some (answers, b₂)) :
    ∃ i, (b.dut.candidates b.identity bus).head? = some i ∧
      (∀ j, b.Other compiledIn (b.identity i) es j →
        (b.plants j).alone (w j) residue (es.filterMap (·.own j)) = some (b₂.plants j)) ∧
      ∀ bus', b₂.connect w residue bus' = some (.fail, b₂) ↔
        ∀ k ∈ bus', b₂.identity k ≠ b.identity i := by
  obtain ⟨i, hhead, hpinned, hidentity, hplants⟩ := Bench.connect_success hdevice hfirst
  obtain ⟨hpinned', hothers⟩ := hpinned.run hr
  refine ⟨i, hhead, ?_, hpinned'.connect_fail_iff⟩
  intro j hj
  have hplant : b₁.plants j = b.plants j := hplants j fun heq => hj.identity (heq ▸ rfl)
  rw [← hplant]
  refine hothers j ⟨by rw [hidentity]; exact hj.identity, ?_⟩
  rw [hplant]
  exact hj.memory

/-- Two new controllers with serial numbers `A` and `B`, and an object without attributes. -/
def pairBench : Bench Bool where
  plants := fun _ => newPlant fun _ => 0
  identity := fun i => ⟨0x4161, 0x00ff, if i then [0x41] else [0x42]⟩
  dut := ⟨none, none, none, none, .unset⟩

/-- The serial numbers are compiled in. -/
def pairNames (i : Bool) : StringArray → Nat → UInt8
  | .serialNumber, 0 => if i then 0x41 else 0x42
  | _, _ => 0

/-- A call after `disconnect`, and a power cycle of the other controller. -/
def pairEvents : List (BenchEvent Bool) :=
  [.call (.spdt .sw1 .j2sel), .disconnect, .call (.spdt .sw1 .j1sel), .idle 10,
    .powerCycle false fun _ _ => 0, .connect [false, true]]

def connectPair : Option (Status × Bench Bool) :=
  pairBench.connect (fun _ _ => true) (fun _ => []) [true, false]

theorem run_pair : connectPair.map Prod.fst = some .success ∧
    (connectPair.bind fun r => Service.tryRun (Bench.step (fun _ _ => true) (fun _ => [])
      pairNames) r.2 pairEvents).isSome = true := by
  decide +kernel

theorem pair_other : pairBench.Other pairNames (pairBench.identity true) pairEvents false where
  identity := by decide
  memory := fun _ => by decide +kernel

theorem one_identity_pair : ∃ b₁ b₂ answers,
    pairBench.connect (fun _ _ => true) (fun _ => []) [true, false] = some (.success, b₁) ∧
      Service.tryRun (Bench.step (fun _ _ => true) (fun _ => []) pairNames) b₁ pairEvents =
        some (answers, b₂) ∧
      (pairBench.plants false).alone (fun _ => true) (fun _ => [])
        [.idle 10, .powerCycle fun _ _ => 0] = some (b₂.plants false) := by
  obtain ⟨hsuccess, hrun⟩ := run_pair
  obtain ⟨⟨res, b₁⟩, hconnect, hres⟩ := Option.map_eq_some_iff.mp hsuccess
  obtain rfl : res = .success := hres
  rw [hconnect] at hrun
  obtain ⟨⟨answers, b₂⟩, hr⟩ := Option.isSome_iff_exists.mp hrun
  obtain ⟨i, hhead, hothers, -⟩ :=
    one_identity (fun _ _ => true) (fun _ => []) pairNames rfl hconnect hr
  have hi : (pairBench.dut.candidates pairBench.identity [true, false]).head? = some true := by
    decide
  obtain rfl : true = i := Option.some.inj (hi.symm.trans hhead)
  exact ⟨b₁, b₂, answers, hconnect, hr, hothers false pair_other⟩

end UsbSpdt
