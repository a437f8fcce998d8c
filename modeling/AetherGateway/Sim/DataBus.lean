/-
  AetherGateway.Sim.DataBus — `GwSimDataBus` (gw-sim-data-bus.cpp), which carries packets
  between the devices and the gateway of the simulator, and the `GwSimDevice`s that come
  and go on it (gw-sim-device.cpp).

  A device registers as a listener when it is created, under the next value of an 8-bit
  counter that only grows, and is removed by that id when it is destroyed. Devices are
  named by the order of their creation. An assertion that fails ends the program, unless
  it is compiled out (`ndebug`).

  Left out: the listeners of the gateway's side.

  Proved:
  - `step_inv`: while the counter lasts, the device created as number `k` has id `k + 1`
    and is the listener of it as long as it is alive.
  - `addressed_iff`: devices are addressed exactly as long as no device after the 254th
    is created, however few of them are alive.
  - `ids_run_out`: two runs with one and two devices alive.
-/

import Mathlib.Logic.Function.Iterate
import AetherGateway.Runs

namespace AetherGateway.Sim

open AetherGateway.Runs

abbrev DeviceId := UInt8

/-- A `GwSimDevice`. -/
abbrev Device := Nat

abbrev DataBuffer := List UInt8

/-! ## The bus -/

structure GwSimDataBus where
  nextDeviceId : DeviceId
  deviceListeners : DeviceId → Option Device

/-- `std::map::emplace`: a key that is there keeps its value. -/
def emplace (m : DeviceId → Option Device) (id : DeviceId) (listener : Device) : DeviceId → Option Device :=
  match m id with
  | none => Function.update m id (some listener)
  | some _ => m

/-- The id, and whether the assertion on it holds. -/
def GwSimDataBus.getDeviceId (b : GwSimDataBus) : DeviceId × Bool × GwSimDataBus :=
  (b.nextDeviceId, b.nextDeviceId < 255, { b with nextDeviceId := b.nextDeviceId + 1 })

/-- No id when the assertion ends the program. -/
def GwSimDataBus.regDeviceListener (b : GwSimDataBus) (ndebug : Bool) (listener : Device) :
    Option DeviceId × Bool × GwSimDataBus :=
  let (id, ok, b) := b.getDeviceId
  if ok || ndebug then (some id, ok, { b with deviceListeners := emplace b.deviceListeners id listener })
  else (none, ok, b)

def GwSimDataBus.removeDeviceListener (b : GwSimDataBus) (deviceId : DeviceId) : GwSimDataBus :=
  { b with deviceListeners := Function.update b.deviceListeners deviceId none }

def GwSimDataBus.publishGwData (b : GwSimDataBus) (toDevice : DeviceId) (data : DataBuffer) :
    List (Device × DataBuffer) :=
  match b.deviceListeners toDevice with
  | none => []
  | some listener => [(listener, data)]

/-! ## Devices -/

structure St where
  bus : GwSimDataBus
  /-- The devices alive, with their `device_id_`. -/
  alive : List (Device × DeviceId)
  created : Nat
  /-- The assertion has failed, or would have where it is compiled out. -/
  overflowed : Bool

inductive Ev where
  | create
  | destroy (device : Device)
  deriving DecidableEq, Repr

def construct : St := ⟨⟨1, fun _ => none⟩, [], 0, false⟩

def create (ndebug : Bool) (s : St) : St :=
  let (id, ok, bus) := s.bus.regDeviceListener ndebug s.created
  ⟨bus, s.alive ++ id.toList.map (s.created, ·), s.created + 1, s.overflowed || !ok⟩

def destroy (s : St) (p : Device × DeviceId) : St :=
  { s with bus := s.bus.removeDeviceListener p.2, alive := s.alive.filter (·.1 != p.1) }

/-- The assertion that has failed ends the program. -/
def step (ndebug : Bool) (s : St) : Ev → Option St
  | .create => if s.overflowed && !ndebug then none else some (create ndebug s)
  | .destroy device =>
    if s.overflowed && !ndebug then none else (s.alive.find? (·.1 == device)).map (destroy s)

/-! ## Addressing -/

/-- Data goes to the device alive that was given the id, to none when there is none, and what
    the assertion says has held, compiled in or not. -/
structure Addressed (s : St) : Prop where
  assertion : s.overflowed = false
  publish : ∀ id data device, (device, id) ∈ s.alive → s.bus.publishGwData id data = [(device, data)]
  silent : ∀ id data, (∀ device, (device, id) ∉ s.alive) → s.bus.publishGwData id data = []

/-- A new device takes an id that no device alive holds, and only the device that is
    destroyed is unregistered. -/
structure Orderly (s : St) (ev : Ev) (t : St) : Prop where
  fresh : ∀ device id, (device, id) ∈ t.alive → (device, id) ∉ s.alive → ∀ p ∈ s.alive, p.2 ≠ id
  kept : ∀ p ∈ s.alive, ev ≠ .destroy p.1 → s.bus.deviceListeners p.2 = some p.1 → t.bus.deviceListeners p.2 = some p.1

/-- No device after the 254th. -/
def Lasts (s : St) (ev : Ev) : Prop := ev = .create → s.created < 254

/-- Until the counter is used up device `k` has id `k + 1`. -/
structure Inv (s : St) : Prop where
  next : s.bus.nextDeviceId.toNat = s.created + 1
  bound : s.created ≤ 254
  assertion : s.overflowed = false
  ids : ∀ p ∈ s.alive, p.2.toNat = p.1 + 1 ∧ p.1 < s.created
  listeners : ∀ id device, s.bus.deviceListeners id = some device ↔ (device, id) ∈ s.alive

variable {ndebug : Bool} {s t : St} {ev : Ev}

theorem construct_inv : Inv construct where
  next := rfl
  bound := Nat.zero_le _
  assertion := rfl
  ids p hp := by cases hp
  listeners id device := iff_of_false (by intro h; cases h) (by intro h; cases h)

/-- The next id is no device's. -/
theorem Inv.fresh (hi : Inv s) : ∀ p ∈ s.alive, p.2 ≠ s.bus.nextDeviceId := by
  intro p hp he
  obtain ⟨hid, hlt⟩ := hi.ids p hp
  have hnext := hi.next
  rw [← he] at hnext
  exact absurd (Nat.succ.inj (hid.symm.trans hnext)) (Nat.ne_of_lt hlt)

theorem Inv.free (hi : Inv s) : s.bus.deviceListeners s.bus.nextDeviceId = none := by
  cases h : s.bus.deviceListeners s.bus.nextDeviceId with
  | none => rfl
  | some device => exact absurd rfl (hi.fresh _ ((hi.listeners _ _).mp h))

theorem Inv.addressed (hi : Inv s) : Addressed s where
  assertion := hi.assertion
  publish id data device hm := by
    unfold GwSimDataBus.publishGwData
    rw [(hi.listeners id device).mpr hm]
  silent id data hn := by
    unfold GwSimDataBus.publishGwData
    cases h : s.bus.deviceListeners id with
    | none => rfl
    | some device => exact absurd ((hi.listeners id device).mp h) (hn device)

/-! ## Steps -/

theorem Inv.create_eq (hi : Inv s) (hl : s.created < 254) : create ndebug s =
    ⟨⟨s.bus.nextDeviceId + 1, Function.update s.bus.deviceListeners s.bus.nextDeviceId (some s.created)⟩,
      s.alive ++ [(s.created, s.bus.nextDeviceId)], s.created + 1, false⟩ := by
  have hlt : s.bus.nextDeviceId < 255 := by
    rw [UInt8.lt_iff_toNat_lt, hi.next]
    exact Nat.lt_of_lt_of_le (Nat.succ_lt_succ hl) (Nat.le_refl _)
  simp [create, GwSimDataBus.regDeviceListener, GwSimDataBus.getDeviceId, emplace, hlt, hi.free, hi.assertion]

theorem create_inv (hi : Inv s) (hl : s.created < 254) : Inv (create ndebug s) := by
  rw [hi.create_eq hl]
  refine ⟨?_, hl, rfl, fun p hp => ?_, fun id device => ?_⟩
  · show (s.bus.nextDeviceId + 1).toNat = s.created + 1 + 1
    rw [UInt8.toNat_add, hi.next]
    exact Nat.mod_eq_of_lt (by simp; omega)
  · rcases List.mem_append.mp hp with hp | hp
    · exact ⟨(hi.ids p hp).1, Nat.lt_succ_of_lt (hi.ids p hp).2⟩
    · rw [List.mem_singleton.mp hp]
      exact ⟨hi.next, Nat.lt_succ_self _⟩
  · show Function.update s.bus.deviceListeners s.bus.nextDeviceId (some s.created) id = some device ↔
      (device, id) ∈ s.alive ++ [(s.created, s.bus.nextDeviceId)]
    rw [List.mem_append, List.mem_singleton, Prod.mk.injEq]
    by_cases hid : id = s.bus.nextDeviceId
    · subst hid
      rw [Function.update_self, Option.some.injEq]
      exact ⟨fun h => Or.inr ⟨h.symm, rfl⟩, fun h => (h.resolve_left fun hm => hi.fresh _ hm rfl).1.symm⟩
    · rw [Function.update_of_ne hid, hi.listeners]
      exact (or_iff_left fun h => hid h.2).symm

theorem Inv.unique (hi : Inv s) {p q : Device × DeviceId} (hp : p ∈ s.alive) (hq : q ∈ s.alive) :
    p.2 = q.2 ↔ p.1 = q.1 := by
  obtain ⟨hpid, -⟩ := hi.ids p hp
  obtain ⟨hqid, -⟩ := hi.ids q hq
  rw [← UInt8.toNat_inj, hpid, hqid]
  exact Nat.succ_inj

theorem destroy_inv (hi : Inv s) {p : Device × DeviceId} (hp : p ∈ s.alive) : Inv (destroy s p) := by
  have hmem : ∀ {q : Device × DeviceId}, q ∈ (destroy s p).alive ↔ q ∈ s.alive ∧ q.1 ≠ p.1 := by
    intro q
    exact List.mem_filter.trans (and_congr_right fun _ => bne_iff_ne)
  refine ⟨hi.next, hi.bound, hi.assertion, fun q hq => hi.ids q (hmem.mp hq).1, fun id device => ?_⟩
  rw [hmem]
  show Function.update s.bus.deviceListeners p.2 none id = some device ↔ (device, id) ∈ s.alive ∧ device ≠ p.1
  by_cases hid : id = p.2
  · subst hid
    rw [Function.update_self]
    refine iff_of_false (fun h => by cases h) fun ⟨hm, hne⟩ => hne ?_
    exact (hi.unique hm hp).mp rfl
  · rw [Function.update_of_ne hid, hi.listeners]
    exact (and_iff_left_of_imp fun hm he => hid ((hi.unique hm hp).mpr he)).symm

theorem step_destroy {device : Device} (h : step ndebug s (.destroy device) = some t) :
    ∃ id, (device, id) ∈ s.alive ∧ t = destroy s (device, id) := by
  simp only [step] at h
  split at h
  · cases h
  · obtain ⟨⟨device', id⟩, hf, rfl⟩ := Option.map_eq_some_iff.mp h
    have he : (device' == device) = true := List.find?_some (p := fun q : Device × DeviceId => q.1 == device) hf
    rw [beq_iff_eq] at he
    subst he
    exact ⟨id, List.mem_of_find?_eq_some hf, rfl⟩

theorem step_create (h : step ndebug s .create = some t) : t = create ndebug s := by
  simp only [step] at h
  split at h
  · cases h
  · exact (Option.some.inj h).symm

theorem step_inv (hi : Inv s) (hl : Lasts s ev) (h : step ndebug s ev = some t) : Inv t := by
  cases ev with
  | create => rw [step_create h]; exact create_inv hi (hl rfl)
  | destroy device =>
    obtain ⟨id, hm, rfl⟩ := step_destroy h
    exact destroy_inv hi hm

theorem step_orderly (hi : Inv s) (hl : Lasts s ev) (h : step ndebug s ev = some t) : Orderly s ev t := by
  cases ev with
  | create =>
    rw [step_create h, hi.create_eq (hl rfl)]
    refine ⟨fun device id hm hn => ?_, fun p hp _ hreg => ?_⟩
    · have hnew := (List.mem_append.mp hm).resolve_left hn
      cases List.mem_singleton.mp hnew
      exact hi.fresh
    · exact (Function.update_of_ne (hi.fresh p hp) _ _).trans hreg
  | destroy device =>
    obtain ⟨id, hm, rfl⟩ := step_destroy h
    refine ⟨fun device' id' hm' hn => absurd (List.mem_filter.mp hm').1 hn, fun p hp hne hreg => ?_⟩
    have hid : p.2 ≠ id := fun he => hne (by rw [(hi.unique hp hm).mp he])
    exact (Function.update_of_ne hid _ _).trans hreg

theorem create_overflows (h : ¬ s.bus.nextDeviceId < 255) : (create ndebug s).overflowed = true := by
  cases ndebug <;> simp [create, GwSimDataBus.regDeviceListener, GwSimDataBus.getDeviceId, h]

/-- The 255th device takes the counter past the assertion. -/
theorem Inv.overflows (hi : Inv s) (hl : ¬ Lasts s ev) : ∃ t, step ndebug s ev = some t ∧ ¬ Addressed t := by
  obtain ⟨rfl, hge⟩ := Classical.not_imp.mp hl
  have hnext : ¬ s.bus.nextDeviceId < 255 := by
    have hn := hi.next
    rw [UInt8.lt_iff_toNat_lt]
    simp
    omega
  refine ⟨create ndebug s, by simp [step, hi.assertion], fun ha => ?_⟩
  cases (create_overflows hnext).symm.trans ha.assertion

/-- In a run devices are addressed exactly, and what the assertion says holds (`ndebug` or
    not), exactly when at most 254 devices are ever created. -/
theorem addressed_iff (ndebug : Bool) (es : List Ev) :
    Always (step ndebug) Addressed construct es ∧ Along (step ndebug) Orderly construct es ↔
      Meets (step ndebug) Lasts construct es := by
  have haddressed : Always (step ndebug) Addressed construct es ↔ Meets (step ndebug) Lasts construct es :=
    always_iff_meets (fun _ hi => hi.addressed) (fun _ _ _ hi hl h => step_inv hi hl h) (fun _ _ hi hl => hi.overflows hl)
      construct_inv
  refine ⟨fun h => haddressed.mp h.1, fun hm => ⟨haddressed.mpr hm, ?_⟩⟩
  exact along_of_meets (fun _ _ _ hi hl h => step_inv hi hl h) (fun _ _ _ hi hl h => step_orderly hi hl h) construct_inv hm

/-! ## Devices that come and go -/

/-- `n` devices, each destroyed before the next is created. -/
def passing (first : Device) : Nat → List Ev
  | 0 => []
  | n + 1 => .create :: .destroy first :: passing (first + 1) n

structure Open (ndebug : Bool) (s : St) : Prop where
  runs : ndebug = true ∨ s.overflowed = false ∧ s.bus.nextDeviceId < 255
  free : s.bus.deviceListeners s.bus.nextDeviceId = none
  below : ∀ p ∈ s.alive, p.1 < s.created

def passed (s : St) : St :=
  { s with
    bus := { s.bus with nextDeviceId := s.bus.nextDeviceId + 1 }
    created := s.created + 1
    overflowed := s.overflowed || !decide (s.bus.nextDeviceId < 255) }

theorem Open.create_eq (ho : Open ndebug s) : create ndebug s =
    ⟨⟨s.bus.nextDeviceId + 1, Function.update s.bus.deviceListeners s.bus.nextDeviceId (some s.created)⟩,
      s.alive ++ [(s.created, s.bus.nextDeviceId)], s.created + 1, s.overflowed || !decide (s.bus.nextDeviceId < 255)⟩ := by
  have hok : (decide (s.bus.nextDeviceId < 255) || ndebug) = true := by
    rcases ho.runs with h | ⟨-, h⟩ <;> simp [h]
  simp [create, GwSimDataBus.regDeviceListener, GwSimDataBus.getDeviceId, emplace, hok, ho.free]

theorem Open.pass (ho : Open ndebug s) : ∃ u, step ndebug s .create = some u ∧
    u.alive.length = s.alive.length + 1 ∧ step ndebug u (.destroy s.created) = some (passed s) := by
  have hruns : (s.overflowed && !ndebug) = false ∧
      ((s.overflowed || !decide (s.bus.nextDeviceId < 255)) && !ndebug) = false := by
    rcases ho.runs with h | ⟨h, h'⟩
    · simp [h]
    · simp [h, h']
  have hfind : (s.alive ++ [(s.created, s.bus.nextDeviceId)]).find? (·.1 == s.created) =
      some (s.created, s.bus.nextDeviceId) := by
    have hnone : s.alive.find? (·.1 == s.created) = none :=
      List.find?_eq_none.mpr fun p hp he => absurd (beq_iff_eq.mp he) (Nat.ne_of_lt (ho.below p hp))
    rw [List.find?_append, hnone]
    simp
  have hkeep : s.alive.filter (·.1 != s.created) = s.alive :=
    List.filter_eq_self.mpr fun p hp => bne_iff_ne.mpr (Nat.ne_of_lt (ho.below p hp))
  have hback : Function.update (Function.update s.bus.deviceListeners s.bus.nextDeviceId (some s.created))
      s.bus.nextDeviceId none = s.bus.deviceListeners := by
    rw [Function.update_idem, ← ho.free, Function.update_eq_self]
  refine ⟨create ndebug s, by simp [step, hruns.1], ?_, ?_⟩
  · rw [ho.create_eq]
    exact List.length_append
  · rw [ho.create_eq]
    simp only [step, hruns.2, hfind]
    simp [destroy, GwSimDataBus.removeDeviceListener, hback, hkeep, passed]

/-- Such devices leave nothing behind, and one at a time is alive beside the others. -/
theorem passing_exec {n : Nat} (ho : ∀ i < n, Open ndebug (passed^[i] s)) :
    exec (step ndebug) s (passing s.created n) = some (passed^[n] s) ∧
      Always (step ndebug) (fun t => t.alive.length ≤ s.alive.length + 1) s (passing s.created n) := by
  induction n generalizing s with
  | zero => exact ⟨rfl, Nat.le_succ _⟩
  | succ n ih =>
    obtain ⟨u, hu, hlen, hv⟩ := (ho 0 (Nat.succ_pos n)).pass
    obtain ⟨hexec, halways⟩ := ih fun i hi => ho (i + 1) (Nat.succ_lt_succ hi)
    refine ⟨exec_cons_some.mpr ⟨u, hu, exec_cons_some.mpr ⟨_, hv, hexec⟩⟩, Nat.le_succ _, fun t ht => ?_⟩
    cases hu.symm.trans ht
    refine ⟨Nat.le_of_eq hlen, fun t ht => ?_⟩
    cases hv.symm.trans ht
    exact halways

theorem passed_fields (s : St) (i : Nat) : (passed^[i] s).alive = s.alive ∧
    (passed^[i] s).bus.deviceListeners = s.bus.deviceListeners ∧ (passed^[i] s).created = s.created + i ∧
    (passed^[i] s).bus.nextDeviceId = s.bus.nextDeviceId + UInt8.ofNat i := by
  induction i with
  | zero => simp
  | succ i ih =>
    obtain ⟨ha, hl, hc, hn⟩ := ih
    rw [Function.iterate_succ_apply']
    refine ⟨ha, hl, congrArg Nat.succ hc, ?_⟩
    show (passed^[i] s).bus.nextDeviceId + 1 = _
    rw [hn, UInt8.ofNat_add, UInt8.add_assoc]
    rfl

/-- The counter lasts for 254 devices. -/
theorem construct_passed (i : Nat) (hi : i ≤ 254) :
    (passed^[i] construct).overflowed = false ∧ (passed^[i] construct).bus.nextDeviceId.toNat = i + 1 := by
  have hnext : ∀ i ≤ 254, (passed^[i] construct).bus.nextDeviceId.toNat = i + 1 := by
    intro i hi
    rw [(passed_fields construct i).2.2.2, UInt8.toNat_add, UInt8.toNat_ofNat']
    show (1 + i % 256) % 256 = i + 1
    omega
  refine ⟨?_, hnext i hi⟩
  induction i with
  | zero => rfl
  | succ i ih =>
    have hlt : (passed^[i] construct).bus.nextDeviceId < 255 := by
      rw [UInt8.lt_iff_toNat_lt, hnext i (Nat.le_of_lt hi)]
      exact Nat.succ_lt_succ hi
    rw [Function.iterate_succ_apply']
    simp [passed, ih (Nat.le_of_lt hi), hlt]

theorem construct_open : ∀ i < 254, Open false (passed^[i] construct) := by
  intro i hi
  obtain ⟨hover, hnext⟩ := construct_passed i (Nat.le_of_lt hi)
  obtain ⟨ha, hl, -, -⟩ := passed_fields construct i
  refine ⟨Or.inr ⟨hover, ?_⟩, by rw [hl]; rfl, fun p hp => ?_⟩
  · rw [UInt8.lt_iff_toNat_lt, hnext]
    exact Nat.succ_lt_succ hi
  · rw [ha] at hp
    cases hp

/-- With one device alive and the assertion compiled out the counter comes round to its id. -/
theorem first_open : ∀ i < 255, Open true (passed^[i] (create true construct)) := by
  intro i hi
  obtain ⟨ha, hl, hc, hn⟩ := passed_fields (create true construct) i
  refine ⟨Or.inl rfl, ?_, fun p hp => ?_⟩
  · rw [hl, hn]
    have hne : (2 : UInt8) + UInt8.ofNat i ≠ 1 := by
      rw [Ne, ← UInt8.toNat_inj, UInt8.toNat_add, UInt8.toNat_ofNat']
      show ¬ (2 + i % 256) % 256 = 1
      omega
    exact Function.update_of_ne hne _ _
  · rw [ha] at hp
    rw [hc, List.mem_singleton.mp hp]
    exact Nat.lt_of_lt_of_le Nat.zero_lt_one (Nat.le_add_right 1 i)

theorem create_length (ndebug : Bool) (s : St) : (create ndebug s).alive.length ≤ s.alive.length + 1 := by
  unfold create
  cases (s.bus.regDeviceListener ndebug s.created).1 <;> simp

/-- After 254 devices the counter is used up. -/
theorem construct_full : ∃ t, exec (step false) construct (passing 0 254) = some t ∧
    t.alive = [] ∧ t.overflowed = false ∧ ¬ t.bus.nextDeviceId < 255 := by
  obtain ⟨hover, hnext⟩ := construct_passed 254 (Nat.le_refl _)
  refine ⟨_, (passing_exec construct_open).1, (passed_fields construct 254).1, hover, ?_⟩
  rw [UInt8.lt_iff_toNat_lt, hnext]
  decide

/-- After 255 more the next id is that of the first device. -/
theorem first_round : ∃ t, exec (step true) (create true construct) (passing 1 255) = some t ∧
    t.alive = [(0, 1)] ∧ t.bus.deviceListeners = Function.update (fun _ => none) 1 (some 0) ∧ t.created = 256 ∧
    t.bus.nextDeviceId = 1 := by
  obtain ⟨ha, hl, hc, hn⟩ := passed_fields (create true construct) 255
  exact ⟨_, (passing_exec first_open).1, ha, hl, hc, hn⟩

/-- With one device alive at a time the assertion fails for the 255th. With two, and the
    assertion compiled out, the 257th takes the id of the first, and destroying it
    unregisters the first. -/
theorem ids_run_out :
    let es := passing 0 254 ++ [.create]
    let es' := .create :: (passing 1 255 ++ [.create, .destroy 256])
    (Always (step false) (fun s => s.alive.length ≤ 1) construct es ∧ ¬ Always (step false) Addressed construct es) ∧
    Always (step true) (fun s => s.alive.length ≤ 2) construct es' ∧ ¬ Along (step true) Orderly construct es' := by
  intro es es'
  obtain ⟨t, hexec, hnil, hover, hfull⟩ := construct_full
  obtain ⟨⟨⟨next, listeners⟩, alive, created, o⟩, hexec', ha, hl, hc, hn⟩ := first_round
  simp only at ha hl hc hn
  subst ha hl hc hn
  refine ⟨⟨always_append hexec (passing_exec construct_open).2 ?_, fun h => ?_⟩,
    ⟨Nat.zero_le _, fun u hu => ?_⟩, fun h => ?_⟩
  · refine ⟨?_, fun u hu => ?_⟩
    · show t.alive.length ≤ 1
      rw [hnil]
      exact Nat.zero_le _
    · have hlen := create_length false t
      rw [hnil] at hlen
      rw [step_create hu]
      exact hlen
  · have hlast : step false t .create = some (create false t) := by simp [step, hover]
    have hend : exec (step false) construct es = some (create false t) := by
      rw [exec_append, hexec, Option.bind_some, exec_cons, hlast]
      rfl
    cases (create_overflows hfull).symm.trans (always_exec h hend).assertion
  · cases hu
    refine always_append hexec' (passing_exec first_open).2 ⟨?_, fun u hu => ?_⟩
    · exact Nat.le_succ _
    · rw [step_create hu]
      refine ⟨create_length true _, fun v hv => ?_⟩
      obtain ⟨id, -, rfl⟩ := step_destroy hv
      exact Nat.le_trans (List.length_filter_le _ _) (create_length true _)
  · have hrest := along_append (h _ rfl).2 hexec'
    let registered : DeviceId → Option Device := Function.update (fun _ => none) 1 (some 0)
    have hcreate : step true ⟨⟨1, registered⟩, [(0, 1)], 256, o⟩ .create =
        some ⟨⟨2, registered⟩, [(0, 1), (256, 1)], 257, o⟩ := by cases o <;> rfl
    have hdestroy : step true ⟨⟨2, registered⟩, [(0, 1), (256, 1)], 257, o⟩ (.destroy 256) =
        some ⟨⟨2, Function.update registered 1 none⟩, [(0, 1)], 257, o⟩ := by cases o <;> rfl
    obtain ⟨-, hkept⟩ := ((hrest _ hcreate).2 _ hdestroy).1
    have hlost : Function.update registered 1 none 1 = some 0 := hkept (0, 1) List.mem_cons_self (by decide) rfl
    rw [Function.update_self] at hlost
    cases hlost

end AetherGateway.Sim
