/-
  AetherGateway.Sim.AccessPoints — an access point and its one device (see
  `AetherGateway.Sim.Transports`).

  Proved:
  - `step_inv`: a build action has one join pending at most, and its access point while it
    is pending itself; a device is one access point's for good, and on the bus as long as
    this is alive.
  - `shares_device`: transports have one device exactly when they are of one access point.
  - `devices_last`: with at most 254 access points the ids of the bus last, however many
    transports are built.
-/

import Mathlib.Data.List.Perm.Subperm
import AetherGateway.Sim.EndToEnd
import AetherGateway.Sim.Transports

namespace AetherGateway.Sim.Transports

open AetherGateway.Runs AetherGateway.Streams AetherGateway.Port Simulator

variable {hash : ServerEndpoints → UInt64} {pc : ProtocolContext} {ndebug : Bool} {s t : Simulator} {ev : Ev}
variable {a k : Nat} {b : GwSimTransportBuildAction}

/-! ## The bus under an access point -/

section
variable {n net : Net}

theorem bus_kept {e : Net.Ev} (h : Net.step hash pc ndebug n e = some net) (he : ∀ x, e ≠ .bus x) :
    net.bus = n.bus := by
  obtain ⟨h, -⟩ := Net.step_stepped h
  cases h with
  | bus => exact absurd rfl (he _)
  | attach | detach | port => rfl
  | toServer => rw [Net.toServer_eq]

theorem bus_step {e : Sim.Ev} (h : Net.step hash pc ndebug n (.bus e) = some net) :
    Sim.step ndebug n.bus e = some net.bus := by
  obtain ⟨h, -⟩ := Net.step_stepped h
  cases h with
  | bus hb => exact hb

theorem bus_create (h : Net.step hash pc ndebug n (.bus .create) = some net) :
    net.bus.created = n.bus.created + 1 ∧ (∀ device ∈ n.bus.alive.map Prod.fst, device ∈ net.bus.alive.map Prod.fst) ∧
      ((net.bus.overflowed && !ndebug) = false → n.bus.created ∈ net.bus.alive.map Prod.fst) := by
  rw [Sim.step_create (bus_step h)]
  unfold Sim.create GwSimDataBus.regDeviceListener GwSimDataBus.getDeviceId
  split
  next id ok bus hreg =>
  refine ⟨rfl, fun device hm => ?_, fun hrun => ?_⟩
  · rw [List.map_append]
    exact List.mem_append_left _ hm
  · simp only at hreg
    split at hreg
    · cases hreg
      simp
    · next hn =>
      cases hreg
      rw [Bool.not_eq_true, Bool.or_eq_false_iff] at hn
      simp [hn.1, hn.2] at hrun

theorem bus_destroy {device : Device} (h : Net.step hash pc ndebug n (.bus (.destroy device)) = some net) :
    net.bus.created = n.bus.created ∧ net.bus.overflowed = n.bus.overflowed ∧
      ∀ d ∈ n.bus.alive.map Prod.fst, d ≠ device → d ∈ net.bus.alive.map Prod.fst := by
  obtain ⟨id, -, he⟩ := Sim.step_destroy (bus_step h)
  rw [he]
  refine ⟨rfl, rfl, fun d hd hne => ?_⟩
  obtain ⟨p, hp, rfl⟩ := List.mem_map.mp hd
  exact List.mem_map_of_mem (List.mem_filter.mpr ⟨hp, by simpa using hne⟩)

end

/-! ## The invariant -/

/-- Where a build action is, by the joins it has pending. -/
inductive Phase (b : GwSimTransportBuildAction) : Nat → Prop where
  | start (hst : b.state = .set .join) (ht : b.transportStream = none) (hr : b.reported = .none) : Phase b 0
  | joining (hst : b.state = ⟨.join, false⟩) (ht : b.transportStream = none) (hr : b.reported = .none) : Phase b 1
  | joined (hst : b.state = .set .createTransport) (ht : b.transportStream = none) (hr : b.reported = .none) : Phase b 0
  | created (hst : b.state = .set .result) (ht : b.transportStream.isSome = true) (hr : b.reported = .none) : Phase b 0
  | done (hst : b.state = ⟨.result, false⟩) (ht : b.transportStream.isSome = true) (hr : b.reported = .result) :
      Phase b 0

structure Building (builders : List GwSimTransportBuildAction) (joins : List Nat) : Prop where
  phases : ∀ a b, builders[a]? = some b → Phase b (joins.count a)
  joins : ∀ a, builders.length ≤ a → joins.count a = 0

/-- Each device is one access point's, each access point's device is on the bus. -/
structure Owned (ndebug : Bool) (s : Simulator) : Prop where
  numbered : s.ended ndebug = false → s.owners.length = s.net.bus.created
  nodup : s.owners.Nodup
  below : ∀ k ∈ s.owners, k < s.accessPoints.length
  device : ∀ k ap, s.accessPoint? k = some ap → ∀ d, ap.gwDevice = some d ↔ s.owners[d]? = some k
  alive : ∀ k ap d, s.accessPoint? k = some ap → ap.gwDevice = some d → d ∈ s.net.bus.alive.map Prod.fst

/-- A pending action has its access point; a transport is for the action's server, over a
    device of its access point. -/
structure Placed (s : Simulator) (b : GwSimTransportBuildAction) : Prop where
  points : b.reported = .none → ∃ ap, s.accessPoint? b.accessPoint = some ap
  transport : ∀ tr, b.transportStream = some tr →
    tr.server = serveKind b.server ∧ s.owners[tr.device]? = some b.accessPoint

structure Inv (ndebug : Bool) (s : Simulator) : Prop where
  building : Building s.builders s.joins
  owned : Owned ndebug s
  placed : ∀ b ∈ s.builders, Placed s b

theorem construct_inv (known : List (List Server)) : Inv ndebug (construct known) where
  building := ⟨by simp [construct], by simp [construct]⟩
  owned := ⟨fun _ => rfl, List.nodup_nil, by simp [construct], by simp [construct, accessPoint?],
    by simp [construct, accessPoint?]⟩
  placed := by simp [construct]

/-- One action and its joins change. -/
theorem Building.set {builders : List GwSimTransportBuildAction} {joins joins' : List Nat} (h : Building builders joins)
    (hb : builders[a]? = some b) {b' : GwSimTransportBuildAction} (hp : Phase b' (joins'.count a))
    (hj : ∀ i, i ≠ a → joins'.count i = joins.count i) : Building (builders.set a b') joins' := by
  have hlt : a < builders.length := (List.getElem?_eq_some_iff.mp hb).1
  constructor
  · intro i c hc
    by_cases hi : i = a
    · subst hi
      rw [List.getElem?_set_self hlt, Option.some.injEq] at hc
      rw [← hc]
      exact hp
    · rw [List.getElem?_set_ne (Ne.symm hi)] at hc
      rw [hj i hi]
      exact h.phases i c hc
  · intro i hi
    rw [List.length_set] at hi
    rw [hj i (by omega)]
    exact h.joins i hi

/-- A state that was set waits for no join, and only the result has a transport. -/
theorem Phase.set_state {n : Nat} {v : State} (hp : Phase b n) (hst : b.state = .set v) :
    n = 0 ∧ v ≠ .error ∧ (b.transportStream.isSome = true ↔ v = .result) := by
  cases hp with
  | start h ht | joined h ht =>
    cases h.symm.trans hst
    rw [ht]
    exact ⟨rfl, by decide, iff_of_false (by decide) (by decide)⟩
  | created h ht =>
    cases h.symm.trans hst
    exact ⟨rfl, by decide, iff_of_true ht rfl⟩
  | joining h | done h => cases h.symm.trans hst

/-- A join is pending for an action that waits for it, once. -/
theorem Building.joining {builders : List GwSimTransportBuildAction} {joins : List Nat} (h : Building builders joins)
    (ha : a ∈ joins) : ∃ b, builders[a]? = some b ∧ joins.count a = 1 ∧ b.state = ⟨.join, false⟩ ∧
      b.transportStream = none ∧ b.reported = .none := by
  have hcount := List.count_pos_iff.mpr ha
  cases hb : builders[a]? with
  | none =>
    have := h.joins a (List.getElem?_eq_none_iff.mp hb)
    omega
  | some b =>
    have hp := h.phases a b hb
    generalize joins.count a = n at hp hcount
    cases hp with
    | joining hst ht hr => exact ⟨b, rfl, rfl, hst, ht, hr⟩
    | start | joined | created | done => omega

theorem updateJoin_builders (hb : s.builders[a]? = some b) :
    (s.updateJoin a).builders = s.builders.set a (b.onJoin joinUpdate) := by
  simp only [updateJoin, List.modify_eq_set_getElem?, hb]
  rfl

theorem Building.step (hi : Building s.builders s.joins) (h : Stepped hash pc ndebug s ev t) :
    Building t.builders t.joins := by
  cases h with
  | adapter | released | destroyed | channels | still | ends | net => exact hi
  | builder =>
    constructor
    · intro i b hb
      simp only [transportBuilder] at hb ⊢
      by_cases hlt : i < s.builders.length
      · rw [List.getElem?_append_left hlt] at hb
        exact hi.phases i b hb
      · have hge : s.builders.length ≤ i := by omega
        rw [List.getElem?_append_right hge, List.getElem?_singleton] at hb
        split at hb
        · cases hb
          rw [hi.joins i hge]
          exact .start rfl rfl rfl
        · cases hb
    · intro i hlen
      simp only [transportBuilder, List.length_append] at hlen
      exact hi.joins i (by omega)
  | @joined a ha =>
    obtain ⟨b, hb, hone, -, ht, hr⟩ := hi.joining ha
    rw [updateJoin_builders hb]
    refine hi.set hb ?_ fun i hne => List.count_erase_of_ne hne
    show Phase _ ((s.joins.erase a).count a)
    rw [List.count_erase_self, hone]
    exact .joined rfl ht hr
  | @joins a b hb hst =>
    obtain ⟨hb, hr⟩ := builder?_some.mp hb
    obtain ⟨hzero, -, ht⟩ := (hi.phases a b hb).set_state hst
    refine hi.set hb ?_ fun i hne => ?_
    · rw [List.count_append, List.count_singleton_self, hzero]
      refine .joining rfl ?_ hr
      exact Option.not_isSome_iff_eq_none.mp fun h => by cases ht.mp h
    · rw [List.count_append, List.count_singleton]
      simp [Ne.symm hne]
  | @creates a b ap device hb hst =>
    obtain ⟨hb, hr⟩ := builder?_some.mp hb
    obtain ⟨hzero, -, -⟩ := (hi.phases a b hb).set_state hst
    refine hi.set hb ?_ fun i _ => rfl
    show Phase _ (s.joins.count a)
    rw [hzero]
    exact .created rfl rfl hr
  | @constructs a b ap net hb hst =>
    obtain ⟨hb, hr⟩ := builder?_some.mp hb
    obtain ⟨hzero, -, -⟩ := (hi.phases a b hb).set_state hst
    refine hi.set hb ?_ fun i _ => rfl
    rw [hzero]
    exact .created rfl rfl hr
  | @reports a b hb hst =>
    obtain ⟨hb, hr⟩ := builder?_some.mp hb
    obtain ⟨hzero, -, ht⟩ := (hi.phases a b hb).set_state hst
    refine hi.set hb ?_ fun i _ => rfl
    show Phase _ (s.joins.count a)
    rw [hzero]
    exact .done rfl (ht.mpr rfl) rfl
  | @fails a b hb hst =>
    obtain ⟨-, hne, -⟩ := (hi.phases a b (builder?_some.mp hb).1).set_state hst
    exact absurd rfl hne

theorem accessPoint?_set {o : Option GwSimAccessPoint} {ap : GwSimAccessPoint} (hk : s.accessPoint? k = some ap)
    (ht : t.accessPoints = s.accessPoints.set k o) (j : Nat) :
    t.accessPoint? j = if j = k then o else s.accessPoint? j := by
  have hlt : k < s.accessPoints.length := (List.getElem?_eq_some_iff.mp (Option.join_eq_some_iff.mp hk)).1
  unfold accessPoint?
  rw [ht]
  split
  · next hj =>
    subst hj
    rw [List.getElem?_set_self hlt]
    rfl
  · next hj => rw [List.getElem?_set_ne (Ne.symm hj)]

theorem accessPoint?_adapter {ap : GwSimAccessPoint} {j : Nat} (h : s.adapter.accessPoint? j = some ap) :
    s.accessPoint? j = some ap ∨ j = s.accessPoints.length ∧ ap = ⟨none⟩ := by
  simp only [accessPoint?, adapter] at h ⊢
  by_cases hlt : j < s.accessPoints.length
  · rw [List.getElem?_append_left hlt] at h
    exact Or.inl h
  · rw [List.getElem?_append_right (by omega), List.getElem?_singleton] at h
    split at h
    · cases h
      exact Or.inr ⟨by omega, rfl⟩
    · cases h

/-- An access point without a device never had one. -/
theorem Owned.fresh {ap : GwSimAccessPoint} (hi : Owned ndebug s) (hk : s.accessPoint? k = some ap)
    (hd : ap.gwDevice = none) : k ∉ s.owners := by
  intro hm
  obtain ⟨d, hget⟩ := List.getElem?_of_mem hm
  have := (hi.device k ap hk d).mpr hget
  rw [hd] at this
  cases this

theorem getElem?_append_new {l : List Nat} {d : Nat} (hk : k ∉ l) : (l ++ [k])[d]? = some k ↔ d = l.length := by
  constructor
  · intro he
    by_cases hd : d < l.length
    · rw [List.getElem?_append_left hd] at he
      exact absurd (List.mem_of_getElem? he) hk
    · have := (List.getElem?_eq_some_iff.mp he).1
      rw [List.length_append, List.length_singleton] at this
      omega
  · intro he
    rw [he]
    exact List.getElem?_concat_length

theorem getElem?_append_other {l : List Nat} {d j : Nat} (hj : j ≠ k) : (l ++ [k])[d]? = some j ↔ l[d]? = some j := by
  by_cases hd : d < l.length
  · rw [List.getElem?_append_left hd]
  · have hle := Nat.not_lt.mp hd
    rw [List.getElem?_append_right hle, List.getElem?_eq_none hle, List.getElem?_singleton]
    refine iff_of_false (fun h => ?_) (by intro h; cases h)
    split at h
    · cases h
      exact hj rfl
    · cases h

/-- A new device is its access point's. -/
theorem Owned.construct {ap : GwSimAccessPoint} {net : Net} (hi : Owned ndebug s) (hs : s.ended ndebug = false)
    (hk : s.accessPoint? k = some ap) (hd : ap.gwDevice = none)
    (hn : Net.step hash pc ndebug s.net (.bus .create) = some net) (hrun : (net.bus.overflowed && !ndebug) = false)
    (builders : List GwSimTransportBuildAction) :
    Owned ndebug { s with
      net := net
      accessPoints := s.accessPoints.set k (some ⟨some s.net.bus.created⟩)
      owners := s.owners ++ [k]
      builders := builders } := by
  obtain ⟨hcreated, hold, hnew⟩ := bus_create hn
  have hnum := hi.numbered hs
  have hfresh := hi.fresh hk hd
  have hlt : k < s.accessPoints.length := (List.getElem?_eq_some_iff.mp (Option.join_eq_some_iff.mp hk)).1
  constructor
  · intro _
    show (s.owners ++ [k]).length = net.bus.created
    rw [List.length_append, hcreated, hnum]
    rfl
  · show (s.owners ++ [k]).Nodup
    simp only [List.nodup_append, List.nodup_singleton, List.mem_singleton]
    refine ⟨hi.nodup, trivial, fun x hx y hy he => ?_⟩
    rw [he, hy] at hx
    exact hfresh hx
  · intro j hj
    show j < (s.accessPoints.set k _).length
    rw [List.length_set]
    rcases List.mem_append.mp hj with hj | hj
    · exact hi.below j hj
    · rw [List.mem_singleton.mp hj]
      exact hlt
  · intro j ap' hj (d : Nat)
    rw [accessPoint?_set hk rfl] at hj
    show ap'.gwDevice = some d ↔ (s.owners ++ [k])[d]? = some j
    split at hj
    · next hjk =>
      cases hj
      rw [hjk, getElem?_append_new hfresh, hnum, Option.some.injEq]
      exact eq_comm
    · next hjk => rw [getElem?_append_other hjk, hi.device j ap' hj d]
  · intro j ap' d hj hd'
    rw [accessPoint?_set hk rfl] at hj
    split at hj
    · cases hj
      cases hd'
      exact hnew hrun
    · exact hold d (hi.alive j ap' d hj hd')

theorem Owned.step (hi : Owned ndebug s) (hs : s.ended ndebug = false) (h : Stepped hash pc ndebug s ev t) :
    Owned ndebug t := by
  cases h with
  | channels | builder | joined | still | joins | creates | reports | fails =>
    exact ⟨hi.numbered, hi.nodup, hi.below, hi.device, hi.alive⟩
  | adapter =>
    refine ⟨hi.numbered, hi.nodup, fun k hk => ?_, fun k ap hk d => ?_, fun k ap d hk hd => ?_⟩
    · have := hi.below k hk
      simp only [Simulator.adapter, List.length_append]
      omega
    · rcases accessPoint?_adapter hk with hk | ⟨rfl, rfl⟩
      · exact hi.device k ap hk d
      · refine iff_of_false (by intro h; cases h) fun h => ?_
        have := hi.below _ (List.mem_of_getElem? h)
        omega
    · rcases accessPoint?_adapter hk with hk | ⟨rfl, rfl⟩
      · exact hi.alive k ap d hk hd
      · cases hd
  | released hk hu hd =>
    refine ⟨hi.numbered, hi.nodup, ?_, fun j ap hj d => ?_, fun j ap d hj hd => ?_⟩
    · simpa only [List.length_set] using hi.below
    · rw [accessPoint?_set hk rfl] at hj
      split at hj
      · cases hj
      · exact hi.device j ap hj d
    · rw [accessPoint?_set hk rfl] at hj
      split at hj
      · cases hj
      · exact hi.alive j ap d hj hd
  | @destroyed k ap device net hk hu hd hn =>
    obtain ⟨hcreated, hover, hold⟩ := bus_destroy hn
    refine ⟨fun hrun => ?_, hi.nodup, ?_, fun j ap' hj d => ?_, fun j ap' d hj hd' => ?_⟩
    · rw [hcreated]
      exact hi.numbered hs
    · simpa only [List.length_set] using hi.below
    · rw [accessPoint?_set hk rfl] at hj
      split at hj
      · cases hj
      · exact hi.device j ap' hj d
    · rw [accessPoint?_set hk rfl] at hj
      split at hj
      · cases hj
      next hjk =>
      refine hold d (hi.alive j ap' d hj hd') fun he => hjk ?_
      have h₁ := (hi.device k ap hk device).mp hd
      have h₂ := (hi.device j ap' hj d).mp hd'
      rw [he, h₁] at h₂
      exact (Option.some.inj h₂).symm
  | constructs hb hst hk hd hn hrun => exact hi.construct hs hk hd hn hrun _
  | ends hb hst hk hd hn hend =>
    refine ⟨fun hrun => ?_, hi.nodup, hi.below, hi.device, fun j ap d hj hd => ?_⟩
    · cases hend.symm.trans hrun
    · exact (bus_create hn).2.1 d (hi.alive j ap d hj hd)
  | net hn he =>
    have hbus := bus_kept hn he
    refine ⟨fun _ => ?_, hi.nodup, hi.below, hi.device, fun j ap d hj hd => ?_⟩
    · rw [hbus]
      exact hi.numbered hs
    · rw [hbus]
      exact hi.alive j ap d hj hd

/-! ## Access points and transports -/

theorem Stepped.owners (h : Stepped hash pc ndebug s ev t) {d : Nat} (hd : s.owners[d]? = some k) :
    t.owners[d]? = some k := by
  cases h with
  | constructs =>
    show (s.owners ++ _)[d]? = some k
    rw [List.getElem?_append_left (List.getElem?_eq_some_iff.mp hd).1]
    exact hd
  | adapter | released | destroyed | channels | builder | joined | still | joins | creates | ends | reports | fails
    | net => exact hd

/-- An access point in use stays. -/
theorem Stepped.accessPoint {ap : GwSimAccessPoint} (h : Stepped hash pc ndebug s ev t)
    (hk : s.accessPoint? k = some ap) (hu : s.inUse k = true) : ∃ ap', t.accessPoint? k = some ap' := by
  cases h with
  | channels | builder | joined | still | joins | creates | ends | reports | fails | net => exact ⟨ap, hk⟩
  | adapter =>
    have hlt : k < s.accessPoints.length := (List.getElem?_eq_some_iff.mp (Option.join_eq_some_iff.mp hk)).1
    refine ⟨ap, ?_⟩
    simp only [accessPoint?, Simulator.adapter]
    rw [List.getElem?_append_left hlt]
    exact hk
  | released hk' hu' | destroyed hk' hu' =>
    rw [accessPoint?_set hk' rfl]
    split
    · next he =>
      rw [he, hu'] at hu
      cases hu
    · exact ⟨ap, hk⟩
  | constructs _ _ hk' =>
    rw [accessPoint?_set hk' rfl]
    split
    · exact ⟨_, rfl⟩
    · exact ⟨ap, hk⟩

theorem Placed.step (hp : Placed s b) (hb : b ∈ s.builders) (h : Stepped hash pc ndebug s ev t) : Placed t b := by
  constructor
  · intro hr
    obtain ⟨ap, hk⟩ := hp.points hr
    exact h.accessPoint hk (inUse_builder hb hr)
  · intro tr htr
    obtain ⟨hserver, hd⟩ := hp.transport tr htr
    exact ⟨hserver, h.owners hd⟩

/-- The action changes only its state. -/
theorem Placed.moved (hp : Placed s b) {b' : GwSimTransportBuildAction} (ha : b'.accessPoint = b.accessPoint)
    (hs : b'.server = b.server) (ht : b'.transportStream = b.transportStream)
    (hr : b'.reported = .none → b.reported = .none) : Placed s b' := by
  refine ⟨fun h => ?_, fun tr h => ?_⟩
  · rw [ha]
    exact hp.points (hr h)
  · rw [ha, hs]
    exact hp.transport tr (ht ▸ h)

theorem placed_step (hi : Inv ndebug s) (h : Stepped hash pc ndebug s ev t) : ∀ b ∈ t.builders, Placed t b := by
  have hold : ∀ b ∈ s.builders, Placed t b := fun b hb => (hi.placed b hb).step hb h
  -- one action gives way to what is left of it
  have hset : ∀ {a b b'}, s.builders[a]? = some b → (Placed t b → Placed t b') →
      ∀ c ∈ s.builders.set a b', Placed t c := by
    intro a b b' hb hnew c hc
    rcases List.mem_or_eq_of_mem_set hc with hc | rfl
    · exact hold c hc
    · exact hnew (hold b (List.mem_of_getElem? hb))
  cases h with
  | adapter | released | destroyed | channels | still | ends | net => exact hold
  | @builder c ch ap hk =>
    intro b hb
    rcases List.mem_append.mp hb with hb | hb
    · exact hold b hb
    · rw [List.mem_singleton.mp hb]
      exact ⟨fun _ => ⟨ap, hk⟩, fun tr h => by cases h⟩
  | joined ha =>
    obtain ⟨b, hb, -⟩ := hi.building.joining ha
    intro c hc
    rw [updateJoin_builders hb] at hc
    refine @hset _ b (b.onJoin joinUpdate) hb (fun hp => ?_) c hc
    exact hp.moved rfl rfl rfl id
  | joins hb hst => exact hset (builder?_some.mp hb).1 fun hp => hp.moved rfl rfl rfl id
  | reports hb hst | fails hb hst =>
    obtain ⟨hb, hr⟩ := builder?_some.mp hb
    exact hset hb fun hp => hp.moved rfl rfl rfl fun _ => hr
  | creates hb hst hk hd =>
    refine hset (builder?_some.mp hb).1 fun hp => ⟨hp.points, fun tr h => ?_⟩
    cases h
    exact ⟨rfl, (hi.owned.device _ _ hk _).mp hd⟩
  | @constructs a b ap net hb hst hk hd hn hrun =>
    refine hset (builder?_some.mp hb).1 fun hp => ⟨hp.points, fun tr h => ?_⟩
    cases h
    have hs : s.ended ndebug = false := (Net.step_stepped hn).2
    refine ⟨rfl, ?_⟩
    show (s.owners ++ [b.accessPoint])[s.net.bus.created]? = some b.accessPoint
    rw [← hi.owned.numbered hs]
    exact List.getElem?_concat_length

theorem step_inv (hi : Inv ndebug s) (h : step hash pc ndebug s ev = some t) : Inv ndebug t := by
  obtain ⟨h, hs⟩ := step_stepped h
  exact ⟨hi.building.step h, hi.owned.step hs h, placed_step hi h⟩

theorem inv {known : List (List Server)} {es : List Ev} (h : exec (step hash pc ndebug) (construct known) es = some s) :
    Inv ndebug s :=
  invariant (fun _ _ _ hi hst => step_inv hi hst) (construct_inv known) h

def threeTransports : List Ev :=
  [.adapter, .adapter, .generateChannels 0 ⟨0, [⟨1, 2, 3⟩]⟩, .generateChannels 0 ⟨5, []⟩, .generateChannels 1 ⟨5, []⟩,
    .transportBuilder 0, .transportBuilder 1, .transportBuilder 2, .update 1, .update 0, .update 2, .join 0, .join 2,
    .join 1, .update 0, .update 1, .update 2]

/-- In every run a transport is for the server of its action, over the device of its
    access point, which is on the bus as long as the access point is alive; and transports
    have one device exactly when they are of one access point. -/
theorem shares_device {known : List (List Server)} {es : List Ev}
    (h : exec (step hash pc ndebug) (construct known) es = some s) :
    (∀ b ∈ s.builders, ∀ tr, b.transportStream = some tr → tr.server = serveKind b.server ∧
      ∀ ap, s.accessPoint? b.accessPoint = some ap → ap.gwDevice = some tr.device ∧
        tr.device ∈ s.net.bus.alive.map Prod.fst) ∧
    ∀ b ∈ s.builders, ∀ b' ∈ s.builders, ∀ tr tr', b.transportStream = some tr → b'.transportStream = some tr' →
      (tr.device = tr'.device ↔ b.accessPoint = b'.accessPoint) := by
  have hi := inv h
  refine ⟨fun b hb tr htr => ?_, fun b hb b' hb' tr tr' htr htr' => ?_⟩
  · obtain ⟨hserver, hd⟩ := (hi.placed b hb).transport tr htr
    refine ⟨hserver, fun ap hk => ?_⟩
    have hdev := (hi.owned.device _ ap hk _).mpr hd
    exact ⟨hdev, hi.owned.alive _ ap _ hk hdev⟩
  · obtain ⟨-, hd⟩ := (hi.placed b hb).transport tr htr
    obtain ⟨-, hd'⟩ := (hi.placed b' hb').transport tr' htr'
    constructor
    · intro he
      rw [he, hd'] at hd
      exact (Option.some.inj hd).symm
    · intro he
      rw [he, ← hd'] at hd
      have hlt : tr.device < s.owners.length := by
        rw [hd'] at hd
        exact (List.getElem?_eq_some_iff.mp hd).1
      exact (List.getElem?_inj hlt hi.owned.nodup).mp hd

theorem shares_device_three :
    ∃ s, exec (step (fun _ => 0) .plain true) (construct []) threeTransports = some s ∧ s.owners = [0, 1] ∧
      ∀ b ∈ s.builders, ∀ b' ∈ s.builders, ∀ tr tr', b.transportStream = some tr → b'.transportStream = some tr' →
        (tr.device = tr'.device ↔ b.accessPoint = b'.accessPoint) :=
  ⟨_, rfl, rfl, (shares_device
    (rfl : exec (step (fun _ => 0) .plain true) (construct []) threeTransports = some _)).2⟩

/-! ## The network under the access points -/

def netEvents (s : Simulator) : Ev → List Net.Ev
  | .release k => ((s.accessPoint? k).bind (·.gwDevice)).toList.map fun device => .bus (.destroy device)
  | .update a =>
    if (s.builder? a).any fun b => b.state == .set .createTransport &&
        (s.accessPoint? b.accessPoint).any (·.gwDevice == none) then [.bus .create]
    else []
  | .net e => [e]
  | _ => []

/-- An update that does not construct a device is nothing to the network. -/
theorem netEvents_update (hb : s.builder? a = some b)
    (h : b.state = .set .createTransport → ∀ ap, s.accessPoint? b.accessPoint = some ap → ap.gwDevice ≠ none) :
    netEvents s (.update a) = [] := by
  simp only [netEvents, hb, Option.any_some]
  refine if_neg fun hc => ?_
  simp only [Bool.and_eq_true, beq_iff_eq, Option.any_eq_true] at hc
  obtain ⟨hst, ap, hk, hd⟩ := hc
  exact h hst ap hk hd

theorem netEvents_constructs {ap : GwSimAccessPoint} (hb : s.builder? a = some b)
    (hst : b.state = .set .createTransport) (hk : s.accessPoint? b.accessPoint = some ap) (hd : ap.gwDevice = none) :
    netEvents s (.update a) = [.bus .create] := by
  simp [netEvents, hb, hst, hk, hd]

/-- A step is nothing to the network or one step of it, and it constructs a device only for
    an access point without one. -/
theorem Stepped.events (h : Stepped hash pc ndebug s ev t) :
    (netEvents s ev = [] ∧ t.net = s.net) ∨
      ∃ e, netEvents s ev = [e] ∧ Net.step hash pc ndebug s.net e = some t.net ∧
        (e = .bus .create → ∃ k ap, s.accessPoint? k = some ap ∧ ap.gwDevice = none) := by
  cases h with
  | adapter | channels | builder | joined => exact Or.inl ⟨rfl, rfl⟩
  | released hk hu hd =>
    refine Or.inl ⟨?_, rfl⟩
    simp only [netEvents, hk, Option.bind_some, hd]
    rfl
  | destroyed hk hu hd hn =>
    refine Or.inr ⟨_, ?_, hn, fun he => by cases he⟩
    simp only [netEvents, hk, Option.bind_some, hd]
    rfl
  | still hb hst =>
    refine Or.inl ⟨netEvents_update hb fun h => ?_, rfl⟩
    rw [h] at hst
    cases hst
  | joins hb hst | reports hb hst | fails hb hst =>
    refine Or.inl ⟨netEvents_update hb fun h => ?_, rfl⟩
    cases hst.symm.trans h
  | creates hb hst hk hd =>
    refine Or.inl ⟨netEvents_update hb fun _ ap hk' hd' => ?_, rfl⟩
    cases hk.symm.trans hk'
    cases hd.symm.trans hd'
  | constructs hb hst hk hd hn | ends hb hst hk hd hn =>
    exact Or.inr ⟨_, netEvents_constructs hb hst hk hd, hn, fun _ => ⟨_, _, hk, hd⟩⟩
  | net hn he => exact Or.inr ⟨_, rfl, hn, fun h => absurd h (he _)⟩

theorem Stepped.run (h : Stepped hash pc ndebug s ev t) :
    exec (Net.step hash pc ndebug) s.net (netEvents s ev) = some t.net := by
  rcases h.events with ⟨he, hnet⟩ | ⟨e, he, hn, -⟩
  · rw [he, hnet]
    exact exec_nil
  · rw [he]
    exact exec_cons_some.mpr ⟨_, hn, rfl⟩

theorem projects (hash : ServerEndpoints → UInt64) (pc : ProtocolContext) (ndebug : Bool) :
    Projects (step hash pc ndebug) (Net.step hash pc ndebug) (·.net) netEvents (Inv ndebug) :=
  ⟨fun _ _ _ hi h => step_inv hi h, fun _ _ _ _ h => (step_stepped h).1.run⟩

/-- Each device has taken one access point. -/
theorem Owned.room {ap : GwSimAccessPoint} (hi : Owned ndebug s) (hs : s.ended ndebug = false)
    (hk : s.accessPoint? k = some ap) (hd : ap.gwDevice = none) : s.net.bus.created < s.accessPoints.length := by
  have hfresh := hi.fresh hk hd
  have hlt : k < s.accessPoints.length := (List.getElem?_eq_some_iff.mp (Option.join_eq_some_iff.mp hk)).1
  have hnodup : (k :: s.owners).Nodup := List.nodup_cons.mpr ⟨hfresh, hi.nodup⟩
  have hsub : k :: s.owners ⊆ List.range s.accessPoints.length := by
    intro j hj
    rw [List.mem_range]
    rcases List.mem_cons.mp hj with rfl | hj
    · exact hlt
    · exact hi.below j hj
  have hlen := (List.subperm_of_subset hnodup hsub).length_le
  rw [List.length_cons, List.length_range, hi.numbered hs] at hlen
  exact hlen

/-- No device after the 254th, whatever becomes of the assertion. -/
def Lasting (n : Net) (ev : Net.Ev) : Prop := ∀ e, ev = .bus e → Sim.Lasts n.bus e

theorem lasting_step (hi : Inv ndebug s) (hlen : s.accessPoints.length ≤ 254)
    (h : step hash pc ndebug s ev = some t) : Meets (Net.step hash pc ndebug) Lasting s.net (netEvents s ev) := by
  obtain ⟨h, hs⟩ := step_stepped h
  rcases h.events with ⟨he, -⟩ | ⟨e, he, -, hc⟩
  · rw [he]
    trivial
  · rw [he]
    refine ⟨fun b hb hcreate => ?_, fun _ _ => trivial⟩
    obtain ⟨k, ap, hk, hd⟩ := hc (by rw [hb, hcreate])
    have hroom := hi.owned.room hs hk hd
    omega

theorem lasting_addressed {n n' : Net} {e : Net.Ev} (hi : Sim.Inv n.bus) (hl : Lasting n e)
    (h : Net.step hash pc ndebug n e = some n') : Sim.Inv n'.bus := by
  cases e with
  | bus e => exact Sim.step_inv hi (hl e rfl) (bus_step h)
  | attach | detach | toServer | port =>
    rw [bus_kept h (by intro x hx; cases hx)]
    exact hi

/-- With at most 254 access points, however many transports are built and however often an
    access point goes, the bus addresses the devices as it should: the network goes
    through a run in which the ids last. -/
theorem devices_last {known : List (List Server)} {es : List Ev}
    (h : exec (step hash pc ndebug) (construct known) es = some s)
    (hm : Meets (step hash pc ndebug) (fun s _ => s.accessPoints.length ≤ 254) (construct known) es) :
    Sim.Addressed s.net.bus ∧ ∃ ns, exec (Net.step hash pc ndebug) (Net.construct known) ns = some s.net ∧
      Meets (Net.step hash pc ndebug) (Net.Lasts ndebug) (Net.construct known) ns := by
  have hrun := (projects hash pc ndebug).run (construct_inv known) h
  have hlasting := (projects hash pc ndebug).meets (fun _ _ _ hi hlen h => lasting_step hi hlen h) (construct_inv known) hm
  have hbus : Sim.Inv s.net.bus :=
    guarded_invariant (I := fun n => Sim.Inv n.bus) (fun _ _ _ hi hl h => lasting_addressed hi hl h)
      Sim.construct_inv hlasting hrun
  refine ⟨hbus.addressed, _, hrun, hlasting.imp fun n e hl => ?_⟩
  cases e with
  | bus e =>
    cases e with
    | create => exact fun _ => hl _ rfl rfl
    | destroy => trivial
  | attach | detach | toServer | port => trivial

theorem devices_last_three :
    ∃ s, exec (step (fun _ => 0) .plain true) (construct []) threeTransports = some s ∧ s.net.bus.created = 2 ∧
      Sim.Addressed s.net.bus :=
  ⟨_, rfl, rfl, (devices_last (rfl : exec (step (fun _ => 0) .plain true) (construct []) threeTransports = some _)
    (by decide)).1⟩

end AetherGateway.Sim.Transports
