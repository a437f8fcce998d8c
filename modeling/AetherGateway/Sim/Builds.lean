/-
  AetherGateway.Sim.Builds — every build action comes to its transport (see
  `AetherGateway.Sim.Transports`).

  The moves of the actions' own are the joins and the `Update`s that do something (`own`):
  an action has four at most (`GwSimTransportBuildAction.rank`).
  - `builds_all`: a run has at most four own moves for each transport that is asked for, no
    action reports an error, nothing is left to do exactly when all have reported their
    result, and own moves lead there.
-/

import AetherGateway.Progress
import AetherGateway.Sim.AccessPoints

namespace AetherGateway.Sim.Transports

open AetherGateway.Runs AetherGateway.Streams AetherGateway.Port Simulator

variable {hash : ServerEndpoints → UInt64} {pc : ProtocolContext} {ndebug : Bool} {s t : Simulator} {ev : Ev}
variable {a k : Nat} {b : GwSimTransportBuildAction}

/-! ## The moves an action has left -/

def GwSimTransportBuildAction.rank (b : GwSimTransportBuildAction) : Nat :=
  match b.state with
  | ⟨.join, true⟩ => 4
  | ⟨.join, false⟩ => 3
  | ⟨.createTransport, true⟩ => 2
  | ⟨_, true⟩ => 1
  | ⟨_, false⟩ => 0

def left (s : Simulator) : Nat := (s.builders.map (·.rank)).sum

/-- An ended program has no move. -/
def rank (ndebug : Bool) (s : Simulator) : Nat := if s.ended ndebug then 0 else left s

/-- A join that is over, or an `Update` that does something. -/
def own (s : Simulator) : Ev → Bool
  | .join _ => true
  | .update a => (s.builder? a).any (·.state.changed)
  | _ => false

theorem rank_le_left (ndebug : Bool) (s : Simulator) : rank ndebug s ≤ left s := by
  unfold rank
  split
  · exact Nat.zero_le _
  · exact Nat.le_refl _

theorem left_set (hb : s.builders[a]? = some b) {b' : GwSimTransportBuildAction}
    (ht : t.builders = s.builders.set a b') : left t + b.rank = left s + b'.rank := by
  unfold left
  rw [ht, List.map_set]
  exact Runs.sum_set _ (by rw [List.getElem?_map, hb]; rfl)

theorem left_le (s : Simulator) : left s ≤ 4 * s.builders.length := by
  unfold left
  induction s.builders with
  | nil => simp
  | cons b l ih =>
    have hb : b.rank ≤ 4 := by
      unfold GwSimTransportBuildAction.rank
      split <;> omega
    simp only [List.map_cons, List.sum_cons, List.length_cons]
    omega

theorem step_lowers (hi : Inv ndebug s) (ho : own s ev = true) (h : step hash pc ndebug s ev = some t) :
    rank ndebug t < rank ndebug s := by
  obtain ⟨h, hs⟩ := step_stepped h
  have hrank : rank ndebug s = left s := by
    unfold rank
    rw [hs]
    rfl
  rw [hrank]
  -- the action goes on to what has less left
  have hless : ∀ {a b b'}, s.builders[a]? = some b → t.builders = s.builders.set a b' → b'.rank < b.rank →
      rank ndebug t < left s := by
    intro a b b' hb ht hlt
    have hset := left_set hb ht
    have := rank_le_left ndebug t
    omega
  cases h with
  | adapter | released | destroyed | channels | builder | net => cases ho
  | joined ha =>
    obtain ⟨b, hb, -, hst, -⟩ := hi.building.joining ha
    refine hless hb (updateJoin_builders hb) ?_
    unfold GwSimTransportBuildAction.rank
    rw [hst]
    exact Nat.lt_succ_self 2
  | still hb hst =>
    simp only [own, hb, Option.any_some] at ho
    cases ho.symm.trans hst
  | joins hb hst | creates hb hst | constructs hb hst | reports hb hst | fails hb hst =>
    refine hless (builder?_some.mp hb).1 rfl ?_
    simp [hst, GwSimTransportBuildAction.onDevice, StateMachine.set, GwSimTransportBuildAction.rank]
  | @ends a b ap net hb hst hk hd hn hend =>
    have hzero : rank ndebug { s with net := net } = 0 := by
      unfold rank
      exact if_pos hend
    rw [hzero]
    have hset := left_set (t := s.setBuilder a { b with state := ⟨.result, false⟩ }) (builder?_some.mp hb).1 rfl
    simp only [GwSimTransportBuildAction.rank, hst, StateMachine.set] at hset
    omega

theorem ranked (hash : ServerEndpoints → UInt64) (pc : ProtocolContext) (ndebug : Bool) :
    Ranked (step hash pc ndebug) own (Inv ndebug) (rank ndebug) :=
  ⟨fun _ _ _ hi _ h => step_inv hi h, fun _ _ _ hi ho h => step_lowers hi ho h⟩

def Ev.channel? : Ev → Option Nat
  | .transportBuilder c => some c
  | _ => none

def gain (ev : Ev) : Nat := 4 * ev.channel?.toList.length

theorem step_gain (ho : own s ev = false) (h : step hash pc ndebug s ev = some t) :
    rank ndebug t ≤ rank ndebug s + gain ev := by
  obtain ⟨h, hs⟩ := step_stepped h
  have hrank : rank ndebug s = left s := by
    unfold rank
    rw [hs]
    rfl
  have hle := rank_le_left ndebug t
  rw [hrank]
  cases h with
  | adapter | released | destroyed | channels | net => exact hle
  | @builder c ch ap hk =>
    have hleft : left (s.transportBuilder ch) = left s + 4 := by
      simp only [left, transportBuilder, List.map_append, List.sum_append, List.map_cons, List.map_nil, List.sum_singleton]
      rfl
    rw [hleft] at hle
    exact hle
  | joined => cases ho
  | still => omega
  | joins hb hst | creates hb hst | constructs hb hst | ends hb hst | reports hb hst | fails hb hst =>
    simp only [own, hb, Option.any_some] at ho
    rw [hst] at ho
    cases ho

theorem step_update (hs : s.ended ndebug = false) (hb : s.builder? a = some b) :
    step hash pc ndebug s (.update a) = s.update hash pc ndebug a b := by
  unfold step
  rw [if_neg (by simp [hs])]
  exact congrArg (Option.bind · _) hb

theorem step_join (hs : s.ended ndebug = false) (ha : a ∈ s.joins) :
    step hash pc ndebug s (.join a) = some (s.updateJoin a) := by
  unfold step
  rw [if_neg (by simp [hs])]
  exact if_pos ha

/-- `gw_device()` comes back, or the assertion of the bus fails in it. -/
theorem createTransport_ne {ap : GwSimAccessPoint} (hs : s.ended ndebug = false)
    (hk : s.accessPoint? b.accessPoint = some ap) : s.createTransport hash pc ndebug a b ≠ none := by
  have hnet : Net.step hash pc ndebug s.net (.bus .create) =
      some { s.net with bus := Sim.create ndebug s.net.bus } := by
    have hrun : (s.net.bus.overflowed && !ndebug) = false := hs
    simp [Net.step, Sim.step, hrun]
  obtain ⟨device⟩ := ap
  unfold createTransport gwDevice
  rw [hk]
  cases device with
  | some device =>
    intro h
    cases h
  | none =>
    simp only [hnet, Option.bind_eq_bind, Option.bind_some, Option.map_some]
    intro h
    split at h <;> cases h

/-- A pending action has a move, or its join has. -/
theorem Inv.moves (hash : ServerEndpoints → UInt64) (pc : ProtocolContext) (hi : Inv ndebug s)
    (hs : s.ended ndebug = false) (hb : s.builders[a]? = some b) (hr : b.reported = .none) :
    ∃ ev, own s ev = true ∧ step hash pc ndebug s ev ≠ none := by
  have hpend : s.builder? a = some b := builder?_some.mpr ⟨hb, hr⟩
  have hset : ∀ {v}, b.state = .set v → s.update hash pc ndebug a b ≠ none →
      ∃ ev, own s ev = true ∧ step hash pc ndebug s ev ≠ none := by
    intro v hst hu
    refine ⟨.update a, ?_, ?_⟩
    · simp only [own, hpend, Option.any_some, hst]
      rfl
    · rw [step_update hs hpend]
      exact hu
  have hp := hi.building.phases a b hb
  generalize hj : s.joins.count a = n at hp
  cases hp with
  | start hst => exact hset hst (by simp [Simulator.update, hst, StateMachine.set, StateMachine.acquire])
  | joining hst =>
    have hmem : a ∈ s.joins := List.count_pos_iff.mp (by omega)
    refine ⟨.join a, rfl, ?_⟩
    rw [step_join hs hmem]
    intro h
    cases h
  | joined hst =>
    obtain ⟨ap, hk⟩ := (hi.placed b (List.mem_of_getElem? hb)).points hr
    refine hset hst ?_
    unfold Simulator.update
    rw [hst]
    exact createTransport_ne hs hk
  | created hst => exact hset hst (by simp [Simulator.update, hst, StateMachine.set, StateMachine.acquire])
  | done _ _ hr' => cases hr.symm.trans hr'

/-- Nothing is left to do when every action has reported its result. -/
theorem quiet_iff (hi : Inv ndebug s) :
    Quiet (step hash pc ndebug) own s ↔ s.ended ndebug = true ∨ ∀ b ∈ s.builders, b.reported = .result := by
  constructor
  · intro hq
    cases hs : s.ended ndebug with
    | true => exact Or.inl rfl
    | false =>
      refine Or.inr fun b hb => ?_
      obtain ⟨a, hget⟩ := List.getElem?_of_mem hb
      have hp := hi.building.phases a b hget
      generalize s.joins.count a = n at hp
      cases hp with
      | done _ _ hr => exact hr
      | start _ _ hr | joining _ _ hr | joined _ _ hr | created _ _ hr =>
        obtain ⟨ev, ho, hne⟩ := hi.moves hash pc hs hget hr
        exact absurd (hq ev ho) hne
  · intro h ev ho
    by_contra hne
    obtain ⟨t, ht⟩ := Option.ne_none_iff_exists'.mp hne
    obtain ⟨hst, hs⟩ := step_stepped ht
    have hall := h.resolve_left (by rw [hs]; decide)
    cases ev with
    | adapter | release | generateChannels | transportBuilder | net => cases ho
    | update a =>
      cases hb : s.builder? a with
      | none => simp [own, hb] at ho
      | some b =>
        obtain ⟨hget, hr⟩ := builder?_some.mp hb
        cases hr.symm.trans (hall b (List.mem_of_getElem? hget))
    | join a =>
      cases hst with
      | joined ha =>
        obtain ⟨b, hb, -, -, -, hr⟩ := hi.building.joining ha
        cases hr.symm.trans (hall b (List.mem_of_getElem? hb))

def asked (s : Simulator) : List (Nat × Server) := s.builders.map fun b => (b.accessPoint, b.server)

theorem asked_set {b' : GwSimTransportBuildAction} (hb : s.builders[a]? = some b)
    (ht : t.builders = s.builders.set a b') (ha : b'.accessPoint = b.accessPoint) (hs : b'.server = b.server) :
    asked t = asked s := by
  obtain ⟨hlt, rfl⟩ := List.getElem?_eq_some_iff.mp hb
  calc asked t = (s.builders.set a s.builders[a]).map fun b => (b.accessPoint, b.server) := by
        rw [asked, ht, List.map_set, List.map_set, ha, hs]
    _ = asked s := by rw [List.set_getElem_self, asked]

theorem own_asked (hi : Inv ndebug s) (ho : own s ev = true) (h : step hash pc ndebug s ev = some t) :
    asked t = asked s := by
  obtain ⟨h, -⟩ := step_stepped h
  cases h with
  | adapter | released | destroyed | channels | builder | net => cases ho
  | still | ends => rfl
  | joins hb | creates hb | constructs hb | reports hb | fails hb =>
    exact asked_set (builder?_some.mp hb).1 rfl rfl rfl
  | joined ha =>
    obtain ⟨b, hb, -⟩ := hi.building.joining ha
    exact asked_set hb (updateJoin_builders hb) rfl rfl

/-- A run takes at most four turns for each transport that is asked for, in total; none of
    the build actions reports an error, and nothing is left to do exactly when all have
    their transports or the program has ended. From every state that is reached, turns
    bring each action that was asked for to its transport, unless the bus runs out of ids. -/
theorem builds_all {known : List (List Server)} {es : List Ev}
    (h : exec (step hash pc ndebug) (construct known) es = some s) :
    ownMoves (step hash pc ndebug) own (construct known) es ≤ 4 * (es.filterMap Ev.channel?).length ∧
    (∀ b ∈ s.builders, b.reported ≠ .error ∧
      (b.reported = .result → ∃ tr, b.transportStream = some tr ∧ tr.server = serveKind b.server)) ∧
    (Quiet (step hash pc ndebug) own s ↔ s.ended ndebug = true ∨ ∀ b ∈ s.builders, b.reported = .result) ∧
    ∃ es' t, exec (step hash pc ndebug) s es' = some t ∧
      Meets (step hash pc ndebug) (fun s ev => own s ev = true) s es' ∧ es'.length ≤ 4 * s.builders.length ∧
      asked t = asked s ∧ (t.ended ndebug = true ∨ ∀ b ∈ t.builders, b.reported = .result) := by
  have hi := inv h
  refine ⟨?_, fun b hb => ?_, quiet_iff hi, ?_⟩
  · have hcount := (ranked hash pc ndebug).count (fun _ _ _ hi h => step_inv hi h) (fun _ _ _ _ ho h => step_gain ho h)
      (construct_inv known) h
    have hgain : (es.map gain).sum = 4 * (es.filterMap Ev.channel?).length := sum_gain Ev.channel? 4 es
    rw [hgain] at hcount
    have hzero : rank ndebug (construct known) = 0 := by
      unfold rank
      split <;> rfl
    omega
  · obtain ⟨a, hget⟩ := List.getElem?_of_mem hb
    have hp := hi.building.phases a b hget
    have hserver := (hi.placed b hb).transport
    generalize s.joins.count a = n at hp
    cases hp with
    | start _ _ hr | joining _ _ hr | joined _ _ hr | created _ _ hr =>
      rw [hr]
      exact ⟨by decide, by intro h; cases h⟩
    | done _ ht hr =>
      rw [hr]
      refine ⟨by decide, fun _ => ?_⟩
      obtain ⟨tr, htr⟩ := Option.isSome_iff_exists.mp ht
      exact ⟨tr, htr, (hserver tr htr).1⟩
  · obtain ⟨es', t, hx, hown, hlen, hit, hq⟩ := (ranked hash pc ndebug).settles hi
    have hleft := rank_le_left ndebug s
    have hle := left_le s
    refine ⟨es', t, hx, hown, by omega, ?_, (quiet_iff hit).mp hq⟩
    exact (guarded_invariant (I := fun u => Inv ndebug u ∧ asked u = asked s)
      (fun u ev v hu ho hstep => ⟨step_inv hu.1 hstep, (own_asked hu.1 ho hstep).trans hu.2⟩) ⟨hi, rfl⟩ hown hx).2

theorem builds_all_three :
    ∃ s, exec (step (fun _ => 0) .plain true) (construct []) threeTransports = some s ∧
      ownMoves (step (fun _ => 0) .plain true) own (construct []) threeTransports = 9 ∧
      ∃ es' t, exec (step (fun _ => 0) .plain true) s es' = some t ∧ es'.length ≤ 12 ∧ asked t = asked s := by
  obtain ⟨-, -, -, es', t, hx, -, hlen, hasked, -⟩ :=
    builds_all (rfl : exec (step (fun _ => 0) .plain true) (construct []) threeTransports = some _)
  exact ⟨_, rfl, rfl, es', t, hx, hlen, hasked⟩

end AetherGateway.Sim.Transports
