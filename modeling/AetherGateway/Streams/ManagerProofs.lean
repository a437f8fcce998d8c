/-
  AetherGateway.Streams.ManagerProofs — what each operation of the stream manager does,
  and the invariant its operations keep (see `AetherGateway.Streams.Manager`).

  - `runAction_request`, `onServers_some`: every outcome of an action's `Update` and of a
    cloud answer, once.
  - `Inv`: a request action is in one of its six phases (`phaseOk`), an existing-stream
    action has a stream, and a stream found through an action or through the cache was
    made for the id it is found under.
-/

import AetherGateway.Streams.Manager

namespace AetherGateway.Streams.Manager

variable {m : Manager} {a b : Nat} {act : StreamGetAction} {r : RequestServerStreamGetAction}

/-! ## Reading the registry of actions -/

theorem action?_lt (h : m.action? a = some act) : a < m.actions.length := by
  unfold action? at h
  by_contra hn
  rw [List.getElem?_eq_none (by omega)] at h
  cases h

theorem action?_push (b : Nat) :
    (m.pushAction act).1.action? b = if b = m.actions.length then some act else m.action? b := by
  unfold pushAction action?
  split
  · next h => subst h; simp
  · next h =>
    by_cases hb : b < m.actions.length
    · rw [List.getElem?_append_left hb]
    · rw [List.getElem?_eq_none (by simp; omega), List.getElem?_eq_none (by omega)]

theorem action?_set (h : m.action? a = some act) (x : Option StreamGetAction) (b : Nat) :
    ({ m with actions := m.actions.set a x } : Manager).action? b = if b = a then x else m.action? b := by
  have hlt := action?_lt h
  unfold action?
  split
  · next hb => subst hb; simp [List.getElem?_set_self hlt]
  · next hb => rw [List.getElem?_set_ne (Ne.symm hb)]

theorem action?_setAction (h : m.action? a = some act) (new : StreamGetAction) (b : Nat) :
    (m.setAction a new).action? b = if b = a then some new else m.action? b := action?_set h _ b

theorem action?_endAction (h : m.action? a = some act) (b : Nat) :
    (m.endAction a).action? b = if b = a then none else m.action? b := action?_set h _ b

theorem heldByAction_iff {s : Nat} :
    m.heldByAction s = true ↔ ∃ a act, m.action? a = some act ∧ act.stream = some s := by
  unfold heldByAction action?
  rw [List.any_eq_true]
  constructor
  · rintro ⟨o, ho, h⟩
    obtain ⟨a, hlt, rfl⟩ := List.getElem_of_mem ho
    simp only [beq_iff_eq, Option.bind_eq_some_iff] at h
    obtain ⟨act, hact, hs⟩ := h
    exact ⟨a, act, by simp [List.getElem?_eq_getElem hlt, hact], hs⟩
  · rintro ⟨a, act, h, hs⟩
    have h' : m.actions[a]? = some (some act) := Option.join_eq_some_iff.mp h
    exact ⟨some act, List.mem_of_getElem? h', by simp [hs]⟩

theorem heldByAction_setAction {new : StreamGetAction} {s : Nat} (ha : m.action? a = some act)
    (hn : new.stream = act.stream) (h : (m.setAction a new).heldByAction s = true) : m.heldByAction s = true := by
  obtain ⟨b, act', hb, hs⟩ := heldByAction_iff.mp h
  rw [action?_setAction ha] at hb
  split at hb
  · cases hb
    exact heldByAction_iff.mpr ⟨a, act, ha, by rw [← hn]; exact hs⟩
  · exact heldByAction_iff.mpr ⟨b, act', hb, hs⟩

theorem heldByAction_endAction {s : Nat} (ha : m.action? a = some act) (h : (m.endAction a).heldByAction s = true) :
    m.heldByAction s = true := by
  obtain ⟨b, act', hb, hs⟩ := heldByAction_iff.mp h
  rw [action?_endAction ha] at hb
  split at hb
  · cases hb
  · exact heldByAction_iff.mpr ⟨b, act', hb, hs⟩

theorem heldByAction_pushAction {s : Nat} (h : (m.pushAction act).1.heldByAction s = true) :
    act.stream = some s ∨ m.heldByAction s = true := by
  obtain ⟨b, act', hb, hs⟩ := heldByAction_iff.mp h
  rw [action?_push] at hb
  split at hb
  · cases hb; exact Or.inl hs
  · exact Or.inr (heldByAction_iff.mpr ⟨b, act', hb, hs⟩)

/-! ## Fields an operation leaves alone -/


theorem buildServer_frame (id : ServerId) (e : ServerEndpoints) :
    (m.buildServer id e).1.streams = m.streams ∧ (m.buildServer id e).1.streamCache = m.streamCache ∧
      (m.buildServer id e).1.actions = m.actions := by
  unfold buildServer
  split
  · split
    · exact ⟨rfl, rfl, rfl⟩
    · exact ⟨rfl, rfl, rfl⟩
  · exact ⟨rfl, rfl, rfl⟩

@[simp] theorem buildServer_streams (id : ServerId) (e : ServerEndpoints) :
    (m.buildServer id e).1.streams = m.streams := (buildServer_frame id e).1
@[simp] theorem buildServer_streamCache (id : ServerId) (e : ServerEndpoints) :
    (m.buildServer id e).1.streamCache = m.streamCache := (buildServer_frame id e).2.1
@[simp] theorem buildServer_actions (id : ServerId) (e : ServerEndpoints) :
    (m.buildServer id e).1.actions = m.actions := (buildServer_frame id e).2.2

theorem action?_congr {m' : Manager} (h : m'.actions = m.actions) : m'.action? = m.action? := by
  funext b; unfold action?; rw [h]

theorem madeFor_congr {m' : Manager} (h : m'.streams = m.streams) : m'.madeFor = m.madeFor := by
  funext s; unfold madeFor; rw [h]

theorem linkState_congr {m' : Manager} (h : m'.streams = m.streams) : m'.linkState = m.linkState := by
  funext s; unfold linkState; rw [h]

/-! ## Streams -/

theorem madeFor_lt {s : Nat} {f : ServeKind} (h : m.madeFor s = some f) : s < m.streams.length := by
  unfold madeFor at h
  by_contra hn
  rw [List.getElem?_eq_none (by omega)] at h
  cases h

theorem madeFor_makeStream (server : Nat) (f : ServeKind) (s : Nat) :
    (m.makeStream server f).1.madeFor s = if s = m.streams.length then some f else m.madeFor s := by
  unfold makeStream madeFor
  split
  · next h => subst h; simp
  · next h =>
    by_cases hs : s < m.streams.length
    · rw [List.getElem?_append_left hs]
    · rw [List.getElem?_eq_none (by simp; omega), List.getElem?_eq_none (by omega)]

/-- A new stream is not linked yet, as is one that does not exist. -/
theorem linkState_makeStream (server : Nat) (f : ServeKind) :
    (m.makeStream server f).1.linkState = m.linkState := by
  funext s
  unfold makeStream linkState
  by_cases hs : s < m.streams.length
  · rw [List.getElem?_append_left hs]
  · rw [List.getElem?_eq_none (by omega : m.streams.length ≤ s)]
    by_cases e : s = m.streams.length
    · subst e; simp
    · rw [List.getElem?_eq_none (by simp; omega)]

theorem madeFor_setLinkState (s : Nat) (st : LinkState) : (m.setLinkState s st).madeFor = m.madeFor := by
  funext x
  unfold setLinkState madeFor
  simp only [List.getElem?_modify]
  cases h : m.streams[x]? with
  | none => simp
  | some v => by_cases e : s = x <;> simp [e]

theorem linkState_setLinkState_ne {s x : Nat} (st : LinkState) (h : x ≠ s) :
    (m.setLinkState s st).linkState x = m.linkState x := by
  unfold setLinkState linkState
  rw [List.getElem?_modify]
  simp only [if_neg (Ne.symm h)]
  cases m.streams[x]? <;> rfl

theorem linkState_setLinkState_self {s : Nat} {f : ServeKind} (st : LinkState) (h : m.madeFor s = some f) :
    (m.setLinkState s st).linkState s = st := by
  have hlt := madeFor_lt h
  unfold setLinkState linkState
  rw [List.getElem?_modify, List.getElem?_eq_getElem hlt]
  simp

/-! ## What the operations do -/

theorem endAction_setAction (act : StreamGetAction) : (m.setAction a act).endAction a = m.endAction a := by
  simp [setAction, endAction]

/-- Every outcome of a request action's turn. -/
theorem runAction_request (m : Manager) (a : Nat) (r : RequestServerStreamGetAction) :
    (r.state.changed = false ∧ m.runAction a (.request r) = (m, .none)) ∨
    (r.state = .set .checkServerExists ∧
      ∃ server, m.registry r.serverId = some server ∧ m.runAction a (.request r) = (m.resolve a r server, .none)) ∨
    (r.state = .set .checkServerExists ∧ m.registry r.serverId = none ∧ m.runAction a (.request r) =
      (m.setAction a (.request { r with state := .set .requestServer }), .none)) ∨
    (r.state = .set .requestServer ∧ m.runAction a (.request r) =
      (m.setAction a (.request { r with state := ⟨.requestServer, false⟩, getServers := .running }), .none)) ∨
    (r.state = .set .result ∧ m.runAction a (.request r) = (m.endAction a, .result)) ∨
    (r.state = .set .error ∧ m.runAction a (.request r) = (m.endAction a, .error)) := by
  obtain ⟨id, ⟨v, c⟩, g, o⟩ := r
  cases c with
  | false => exact Or.inl ⟨rfl, rfl⟩
  | true =>
    cases v with
    | checkServerExists =>
      cases h : m.registry id with
      | some server =>
        refine Or.inr (Or.inl ⟨rfl, server, rfl, ?_⟩)
        simp only [runAction, update, updateRequest, checkServerExists, h, if_true]; rfl
      | none =>
        refine Or.inr (Or.inr (Or.inl ⟨rfl, rfl, ?_⟩))
        simp only [runAction, update, updateRequest, checkServerExists, h, if_true]
    | requestServer => exact Or.inr (Or.inr (Or.inr (Or.inl ⟨rfl, rfl⟩)))
    | result =>
      refine Or.inr (Or.inr (Or.inr (Or.inr (Or.inl ⟨rfl, ?_⟩))))
      rw [← endAction_setAction]; rfl
    | error =>
      refine Or.inr (Or.inr (Or.inr (Or.inr (Or.inr ⟨rfl, ?_⟩))))
      rw [← endAction_setAction]; rfl

theorem requesting_some (h : m.requesting a = some r) :
    m.action? a = some (.request r) ∧ r.getServers = .running := by
  unfold requesting at h
  split at h
  · split at h
    · cases h; exact ⟨‹_›, ‹_›⟩
    · cases h
  · cases h

theorem onServers_some {sds : List ServerDescriptor} {m' : Manager} (h : m.onServers a sds = some m') :
    ∃ sd rest r, sds = sd :: rest ∧ m.requesting a = some r ∧
      m' = (m.buildServer sd.serverId (endpointsOf sd)).1.resolve a { r with getServers := .ended }
        (m.buildServer sd.serverId (endpointsOf sd)).2 := by
  cases sds with
  | nil => cases h
  | cons sd rest =>
    simp only [onServers, Option.map_eq_some_iff] at h
    obtain ⟨r, hr, rfl⟩ := h
    exact ⟨sd, rest, r, rfl, hr, rfl⟩

/-! ### `resolve` -/

section Resolve

variable (m) (a) (r) (server : Nat)

theorem resolve_action? (h : m.action? a = some act) (b : Nat) :
    (m.resolve a r server).action? b =
      if b = a then some (.request { r with stream := some m.streams.length, state := .set .result })
      else m.action? b := by
  unfold resolve makeStream cacheStream
  exact action?_setAction (m := { m with
    streams := m.streams ++ [⟨server, .unlinked, .id r.serverId⟩]
    streamCache := fun i => if i = r.serverId then (m.streamCache i).or (some m.streams.length) else m.streamCache i })
    h _ b

theorem resolve_madeFor (s : Nat) :
    (m.resolve a r server).madeFor s = if s = m.streams.length then some (.id r.serverId) else m.madeFor s := by
  rw [← madeFor_makeStream server (.id r.serverId) s]; rfl

theorem resolve_linkState : (m.resolve a r server).linkState = m.linkState :=
  linkState_makeStream (m := m) server (.id r.serverId)

theorem resolve_streamCache (i : ServerId) :
    (m.resolve a r server).streamCache i =
      if i = r.serverId then (m.streamCache i).or (some m.streams.length) else m.streamCache i := rfl

theorem resolve_heldByAction (h : m.action? a = some act) {s : Nat}
    (hs : (m.resolve a r server).heldByAction s = true) : s = m.streams.length ∨ m.heldByAction s = true := by
  obtain ⟨b, act', hb, hs⟩ := heldByAction_iff.mp hs
  rw [resolve_action? m a r server h] at hb
  split at hb
  · cases hb; cases hs; exact Or.inl rfl
  · exact Or.inr (heldByAction_iff.mpr ⟨b, act', hb, hs⟩)

end Resolve

/-! ## The invariant -/

def phaseOk (r : RequestServerStreamGetAction) : Bool :=
  match r.state, r.getServers, r.stream with
  | ⟨.checkServerExists, true⟩, .none, none => true
  | ⟨.requestServer, true⟩, .none, none => true
  | ⟨.requestServer, false⟩, .running, none => true
  | ⟨.requestServer, false⟩, .ended, none => true
  | ⟨.result, true⟩, .none, some _ => true
  | ⟨.result, true⟩, .ended, some _ => true
  | ⟨.error, true⟩, .ended, none => true
  | _, _, _ => false

def ActOk (m : Manager) : StreamGetAction → Prop
  | .existing o => ∃ s f, o = some s ∧ m.madeFor s = some f
  | .request r => phaseOk r = true ∧ ∀ s, r.stream = some s → m.madeFor s = some (.id r.serverId)

structure Inv (m : Manager) : Prop where
  acts : ∀ a act, m.action? a = some act → m.ActOk act
  cached : ∀ i s, m.streamCache i = some s → m.madeFor s = some (.id i)

theorem ActOk.mono {m' : Manager} (hm : ∀ s f, m.madeFor s = some f → m'.madeFor s = some f) (h : m.ActOk act) :
    m'.ActOk act := by
  cases act with
  | existing o =>
    obtain ⟨s, f, ho, hs⟩ := h
    exact ⟨s, f, ho, hm s f hs⟩
  | request r => exact ⟨h.1, fun s hs => hm s _ (h.2 s hs)⟩

/-- An operation keeps the invariant when it keeps what streams were made for, and the
    actions and cache entries it brings are sound. -/
theorem Inv.of {m' : Manager} (h : Inv m) (hm : ∀ s f, m.madeFor s = some f → m'.madeFor s = some f)
    (hacts : ∀ b act, m'.action? b = some act → m.action? b = some act ∨ m'.ActOk act)
    (hcache : ∀ i s, m'.streamCache i = some s → m.streamCache i = some s ∨ m'.madeFor s = some (.id i)) :
    Inv m' := by
  refine ⟨fun b act hb => ?_, fun i s hs => ?_⟩
  · rcases hacts b act hb with hb | hok
    · exact (h.acts b act hb).mono hm
    · exact hok
  · rcases hcache i s hs with hs | hok
    · exact hm s _ (h.cached i s hs)
    · exact hok

theorem Inv.congr {m' : Manager} (h : Inv m) (hs : m'.streams = m.streams) (hc : m'.streamCache = m.streamCache)
    (ha : m'.actions = m.actions) : Inv m' :=
  h.of (fun s f hf => by rw [madeFor_congr hs]; exact hf) (fun b act hb => Or.inl (by rw [← action?_congr ha]; exact hb))
    (fun i s h' => Or.inl (by rw [← hc]; exact h'))

theorem Inv.setAction (h : Inv m) (ha : m.action? a = some act) {new : StreamGetAction} (hok : m.ActOk new) :
    Inv (m.setAction a new) := by
  refine h.of (fun s f hf => hf) (fun b act' hb => ?_) (fun i s hs => Or.inl hs)
  rw [action?_setAction ha] at hb
  split at hb
  · cases hb; exact Or.inr hok
  · exact Or.inl hb

theorem Inv.endAction (h : Inv m) (ha : m.action? a = some act) : Inv (m.endAction a) := by
  refine h.of (fun s f hf => hf) (fun b act' hb => ?_) (fun i s hs => Or.inl hs)
  rw [action?_endAction ha] at hb
  split at hb
  · cases hb
  · exact Or.inl hb

theorem Inv.pushAction (h : Inv m) (hok : m.ActOk act) : Inv (m.pushAction act).1 := by
  refine h.of (fun s f hf => hf) (fun b act' hb => ?_) (fun i s hs => Or.inl hs)
  rw [action?_push] at hb
  split at hb
  · cases hb; exact Or.inr hok
  · exact Or.inl hb

theorem Inv.openCache (h : Inv m) (alive : Nat → Bool) : Inv (m.openCache alive) :=
  h.of (fun _ _ hf => hf) (fun _ _ hb => Or.inl hb) (fun _ _ hs => Or.inl (Option.filter_eq_some_iff.mp hs).1)

theorem Inv.setLinkState (h : Inv m) (s : Nat) (st : LinkState) : Inv (m.setLinkState s st) :=
  h.of (fun x f hf => by rw [madeFor_setLinkState]; exact hf) (fun b act hb => Or.inl hb) (fun i x hx => Or.inl hx)

theorem madeFor_ne_length {s : Nat} {f : ServeKind} (h : m.madeFor s = some f) : s ≠ m.streams.length := by
  have := madeFor_lt h
  omega

theorem resolve_madeFor_mono (a : Nat) (r : RequestServerStreamGetAction) (server s : Nat) (f : ServeKind)
    (h : m.madeFor s = some f) : (m.resolve a r server).madeFor s = some f := by
  rw [resolve_madeFor, if_neg (madeFor_ne_length h)]; exact h

theorem Inv.resolve (h : Inv m) (ha : m.action? a = some act) {r : RequestServerStreamGetAction}
    (hg : r.getServers ≠ .running) (server : Nat) : Inv (m.resolve a r server) := by
  refine h.of (resolve_madeFor_mono a r server) (fun b act' hb => ?_) (fun i s hs => ?_)
  · rw [resolve_action? m a r server ha] at hb
    split at hb
    · cases hb
      refine Or.inr ⟨?_, fun s hs => ?_⟩
      · cases hr : r.getServers with
        | running => exact absurd hr hg
        | none => simp [phaseOk, StateMachine.set]
        | ended => simp [phaseOk, StateMachine.set]
      · cases hs
        rw [resolve_madeFor, if_pos rfl]
    · exact Or.inl hb
  · rw [resolve_streamCache] at hs
    split at hs
    · next hi =>
      cases hc : m.streamCache i with
      | some x => rw [hc] at hs; exact Or.inl hs
      | none =>
        rw [hc] at hs
        cases hs
        rw [resolve_madeFor, if_pos rfl, hi]
        exact Or.inr rfl
    · exact Or.inl hs

theorem Inv.buildServer (h : Inv m) (id : ServerId) (e : ServerEndpoints) : Inv (m.buildServer id e).1 :=
  h.congr (buildServer_streams id e) (buildServer_streamCache id e) (buildServer_actions id e)

theorem init_inv (known : List Server) : Inv (.init known) :=
  ⟨fun b act hb => by simp [init, action?] at hb, fun i s hs => by cases hs⟩

/-! ### The calls and the actions' turns -/

/-- A call with the cache: what is pushed, on the purged cache. -/
theorem getStream_cases (m : Manager) (alive : Nat → Bool) (id : ServerId) (cache : Bool) :
    (cache = true ∧ ∃ s, m.streamCache id = some s ∧ alive s = true ∧
      m.getStream alive id cache = (m.openCache alive).pushAction (.existing (some s))) ∨
    (cache = true ∧ (m.openCache alive).streamCache id = none ∧
      m.getStream alive id cache = (m.openCache alive).pushAction (.request (.make id))) ∨
    (cache = false ∧ m.getStream alive id cache = m.pushAction (.request (.make id))) := by
  cases cache with
  | false => exact Or.inr (Or.inr ⟨rfl, rfl⟩)
  | true =>
    cases h : (m.openCache alive).streamCache id with
    | none => refine Or.inr (Or.inl ⟨rfl, rfl, ?_⟩); simp only [getStream, h, if_true]
    | some s =>
      obtain ⟨hs, ha⟩ := Option.filter_eq_some_iff.mp h
      refine Or.inl ⟨rfl, s, hs, ha, ?_⟩
      simp only [getStream, h, ha, if_true]

theorem actOk_make (m : Manager) (id : ServerId) : m.ActOk (.request (.make id)) := ⟨rfl, fun s hs => by cases hs⟩

theorem Inv.getStream (h : Inv m) (alive : Nat → Bool) (id : ServerId) (cache : Bool) :
    Inv (m.getStream alive id cache).1 := by
  rcases getStream_cases m alive id cache with ⟨-, s, hs, -, e⟩ | ⟨-, -, e⟩ | ⟨-, e⟩
  · rw [e]; exact (h.openCache alive).pushAction ⟨s, .id id, rfl, h.cached id s hs⟩
  · rw [e]; exact (h.openCache alive).pushAction (actOk_make _ id)
  · rw [e]; exact h.pushAction (actOk_make m id)

theorem makeStream_madeFor_mono (server : Nat) (k : ServeKind) (s : Nat) (f : ServeKind) (h : m.madeFor s = some f) :
    (m.makeStream server k).1.madeFor s = some f := by
  rw [madeFor_makeStream, if_neg (madeFor_ne_length h)]; exact h

theorem Inv.getStreamTo (h : Inv m) (e : ServerEndpoints) : Inv (m.getStreamTo e).1 := by
  have hb := h.buildServer 0 e
  have hs : Inv ((m.buildServer 0 e).1.makeStream (m.buildServer 0 e).2 (.endpoints e)).1 :=
    hb.of (makeStream_madeFor_mono _ _) (fun _ _ hb => Or.inl hb) (fun _ _ hs => Or.inl hs)
  exact hs.pushAction ⟨_, .endpoints e, rfl, by rw [madeFor_makeStream]; exact if_pos rfl⟩

theorem Inv.runAction (h : Inv m) (ha : m.action? a = some act) : Inv (m.runAction a act).1 := by
  cases act with
  | existing o => exact h.endAction ha
  | request r =>
    obtain ⟨hp, hs⟩ := h.acts a _ ha
    rcases runAction_request m a r with ⟨-, e⟩ | ⟨hst, server, -, e⟩ | ⟨hst, -, e⟩ | ⟨hst, e⟩ | ⟨-, e⟩ | ⟨-, e⟩ <;>
      rw [e]
    · exact h
    · refine h.resolve ha (fun hg => ?_) server
      obtain ⟨id, st, g, o⟩ := r
      simp only at hst hg
      subst hst hg
      revert hp; cases o <;> simp [phaseOk, StateMachine.set]
    · refine h.setAction ha ⟨?_, hs⟩
      obtain ⟨id, st, g, o⟩ := r
      subst hst
      revert hp; cases g <;> cases o <;> simp [phaseOk, StateMachine.set]
    · refine h.setAction ha ⟨?_, hs⟩
      obtain ⟨id, st, g, o⟩ := r
      subst hst
      revert hp; cases g <;> cases o <;> simp [phaseOk, StateMachine.set]
    · exact h.endAction ha
    · exact h.endAction ha

theorem Inv.onServers (h : Inv m) {sds : List ServerDescriptor} {m' : Manager} (hs : m.onServers a sds = some m') :
    Inv m' := by
  obtain ⟨sd, rest, r, -, hr, rfl⟩ := onServers_some hs
  have ha := (requesting_some hr).1
  rw [← action?_congr (buildServer_actions sd.serverId (endpointsOf sd))] at ha
  exact (h.buildServer _ _).resolve ha (by simp) _

theorem phaseOk_stream (hp : phaseOk r = true) (hv : r.state.value ≠ .result) : r.stream = none := by
  obtain ⟨id, ⟨v, c⟩, g, o⟩ := r
  revert hp hv; cases v <;> cases c <;> cases g <;> cases o <;> simp [phaseOk]

/-- A request whose cloud request runs waits for it. -/
theorem Inv.waiting (h : Inv m) (hr : m.requesting a = some r) :
    r.state = ⟨.requestServer, false⟩ ∧ r.stream = none := by
  obtain ⟨ha, hg⟩ := requesting_some hr
  obtain ⟨id, ⟨v, c⟩, g, o⟩ := r
  have hp := (h.acts a _ ha).1
  simp only at hg
  subst hg
  revert hp; cases v <;> cases c <;> cases o <;> simp [phaseOk]

theorem Inv.onServersError (h : Inv m) {m' : Manager} (hs : m.onServersError a = some m') : Inv m' := by
  obtain ⟨r, hr, rfl⟩ := Option.map_eq_some_iff.mp hs
  obtain ⟨-, ho⟩ := h.waiting hr
  refine h.setAction (requesting_some hr).1 ⟨?_, fun s hs => ?_⟩
  · simp [phaseOk, ho, StateMachine.set]
  · simp [ho] at hs

theorem Inv.onServersStop (h : Inv m) {m' : Manager} (hs : m.onServersStop a = some m') : Inv m' := by
  obtain ⟨r, hr, rfl⟩ := Option.map_eq_some_iff.mp hs
  obtain ⟨hst, ho⟩ := h.waiting hr
  refine h.setAction (requesting_some hr).1 ⟨?_, fun s hs => ?_⟩
  · simp [phaseOk, ho, hst]
  · simp [ho] at hs

/-! ## Whom an action serves -/

def Serves (m : Manager) (f : ServeKind) : StreamGetAction → Prop
  | .existing o => ∃ s, o = some s ∧ m.madeFor s = some f
  | .request r => f = .id r.serverId

theorem Serves.mono {m' : Manager} {f : ServeKind} (hm : ∀ s f, m.madeFor s = some f → m'.madeFor s = some f)
    (h : m.Serves f act) : m'.Serves f act := by
  cases act with
  | existing o =>
    obtain ⟨s, ho, hs⟩ := h
    exact ⟨s, ho, hm s f hs⟩
  | request r => exact h

/-- The stream an action holds was made for the request the action serves. -/
theorem Serves.stream {f : ServeKind} {s : Nat} (h : m.Serves f act) (hok : m.ActOk act) (hs : act.stream = some s) :
    m.madeFor s = some f := by
  cases act with
  | existing o =>
    obtain ⟨x, rfl, hx⟩ := h
    cases hs; exact hx
  | request r =>
    obtain rfl := h
    exact hok.2 s hs

/-- A turn of action `a` (its `Update`, or an event of its cloud request): `a` ends or
    goes on for the same id, and nothing else changes but for a new stream, which `a`
    holds and the cache may take. -/
structure Turn (m : Manager) (a : Nat) (act : StreamGetAction) (m' : Manager) : Prop where
  other : ∀ b, b ≠ a → m'.action? b = m.action? b
  own : ∀ act', m'.action? a = some act' → ∃ r r', act = .request r ∧ act' = .request r' ∧ r'.serverId = r.serverId
  stream : ∀ act' s, m'.action? a = some act' → act'.stream = some s → act.stream = some s ∨ m.streams.length ≤ s
  cache : ∀ i s, m'.streamCache i = some s → m.streamCache i = some s ∨ m.streams.length ≤ s
  made : ∀ s f, m.madeFor s = some f → m'.madeFor s = some f
  link : m'.linkState = m.linkState
  length : m'.actions.length = m.actions.length

theorem turn_setAction (ha : m.action? a = some (.request r)) {r' : RequestServerStreamGetAction}
    (hr : r'.serverId = r.serverId) (hst : r'.stream = r.stream) : Turn m a (.request r) (m.setAction a (.request r')) where
  other b hb := by rw [action?_setAction ha, if_neg hb]
  own act' h := by
    rw [action?_setAction ha, if_pos rfl] at h
    cases h; exact ⟨r, r', rfl, rfl, hr⟩
  stream act' s h hs := by
    rw [action?_setAction ha, if_pos rfl] at h
    cases h; exact Or.inl (hst.symm.trans hs)
  cache i s h := Or.inl h
  made s f h := h
  link := rfl
  length := by simp [Manager.setAction]

theorem turn_endAction (ha : m.action? a = some act) : Turn m a act (m.endAction a) where
  other b hb := by rw [action?_endAction ha, if_neg hb]
  own act' h := by
    rw [action?_endAction ha, if_pos rfl] at h
    cases h
  stream act' s h hs := by
    rw [action?_endAction ha, if_pos rfl] at h
    cases h
  cache i s h := Or.inl h
  made s f h := h
  link := rfl
  length := by simp [Manager.endAction]

theorem turn_resolve (ha : m.action? a = some (.request r)) (new : RequestServerStreamGetAction)
    (hr : new.serverId = r.serverId) (server : Nat) : Turn m a (.request r) (m.resolve a new server) where
  other b hb := by rw [resolve_action? m a new server ha, if_neg hb]
  own act' h := by
    rw [resolve_action? m a new server ha, if_pos rfl] at h
    cases h; exact ⟨r, _, rfl, rfl, hr⟩
  stream act' s h hs := by
    rw [resolve_action? m a new server ha, if_pos rfl] at h
    cases h; cases hs
    exact Or.inr (Nat.le_refl _)
  cache i s h := by
    rw [resolve_streamCache] at h
    split at h
    · cases hc : m.streamCache i with
      | some x => rw [hc] at h; exact Or.inl h
      | none =>
        rw [hc] at h
        cases h
        exact Or.inr (Nat.le_refl _)
    · exact Or.inl h
  made := resolve_madeFor_mono a new server
  link := resolve_linkState m a new server
  length := by simp [Manager.resolve, Manager.setAction, makeStream, cacheStream]

theorem turn_runAction (ha : m.action? a = some act) : Turn m a act (m.runAction a act).1 := by
  cases act with
  | existing o => exact turn_endAction ha
  | request r =>
    rcases runAction_request m a r with ⟨-, e⟩ | ⟨-, server, -, e⟩ | ⟨-, -, e⟩ | ⟨-, e⟩ | ⟨-, e⟩ | ⟨-, e⟩ <;> rw [e]
    · refine ⟨fun _ _ => rfl, fun act' h => ?_, fun act' s h hs => ?_, fun _ _ h => Or.inl h, fun _ _ h => h, rfl, rfl⟩
      · exact ⟨r, r, rfl, (Option.some.inj (ha.symm.trans h)).symm, rfl⟩
      · rw [← Option.some.inj (ha.symm.trans h)] at hs
        exact Or.inl hs
    · exact turn_resolve ha r rfl server
    · exact turn_setAction ha rfl rfl
    · exact turn_setAction ha rfl rfl
    · exact turn_endAction ha
    · exact turn_endAction ha

theorem turn_onServers {sds : List ServerDescriptor} {m' : Manager} (hs : m.onServers a sds = some m') :
    ∃ r, m.requesting a = some r ∧ Turn m a (.request r) m' := by
  obtain ⟨sd, rest, r, -, hr, rfl⟩ := onServers_some hs
  have ha := (requesting_some hr).1
  have hb := action?_congr (buildServer_actions (m := m) sd.serverId (endpointsOf sd))
  rw [← hb] at ha
  have ht := turn_resolve ha { r with getServers := .ended } rfl (m.buildServer sd.serverId (endpointsOf sd)).2
  have hst := buildServer_streams (m := m) sd.serverId (endpointsOf sd)
  refine ⟨r, hr, fun b hne => ?_, ht.own, fun act' s h hs => ?_, fun i s h => ?_, fun s f hf => ?_, ?_, ?_⟩
  · rw [ht.other b hne, hb]
  · rw [← hst]; exact ht.stream act' s h hs
  · rw [← hst, ← buildServer_streamCache (m := m) sd.serverId (endpointsOf sd)]; exact ht.cache i s h
  · exact ht.made s f (by rw [madeFor_congr (buildServer_streams _ _)]; exact hf)
  · rw [ht.link, linkState_congr (buildServer_streams _ _)]
  · rw [ht.length, buildServer_actions]

theorem turn_onServersError {m' : Manager} (hs : m.onServersError a = some m') :
    ∃ r, m.requesting a = some r ∧ Turn m a (.request r) m' := by
  obtain ⟨r, hr, rfl⟩ := Option.map_eq_some_iff.mp hs
  exact ⟨r, hr, turn_setAction (requesting_some hr).1 rfl rfl⟩

theorem turn_onServersStop {m' : Manager} (hs : m.onServersStop a = some m') :
    ∃ r, m.requesting a = some r ∧ Turn m a (.request r) m' := by
  obtain ⟨r, hr, rfl⟩ := Option.map_eq_some_iff.mp hs
  exact ⟨r, hr, turn_setAction (requesting_some hr).1 rfl rfl⟩

/-- Actions keep serving whom they served across another's turn and their own. -/
theorem Turn.serves {m' : Manager} {act' : StreamGetAction} (h : Turn m a act m')
    (ha : m.action? a = some act) (hb : m'.action? b = some act') :
    ∃ act₀, m.action? b = some act₀ ∧ ∀ f, m.Serves f act₀ → m'.Serves f act' := by
  by_cases e : b = a
  · subst e
    obtain ⟨r, r', rfl, rfl, hr⟩ := h.own act' hb
    refine ⟨.request r, ha, fun f hf => ?_⟩
    show f = .id r'.serverId
    rw [hr]; exact hf
  · exact ⟨act', by rw [← h.other b e]; exact hb, fun f => Serves.mono h.made⟩

/-- A call pushes one action, which serves it. -/
theorem Inv.getStream_pushes (h : Inv m) (alive : Nat → Bool) (id : ServerId) (cache : Bool) :
    ∃ act, (∀ b, (m.getStream alive id cache).1.action? b =
        if b = m.actions.length then some act else m.action? b) ∧
      (m.getStream alive id cache).1.Serves (.id id) act ∧
      (m.getStream alive id cache).1.actions.length = m.actions.length + 1 ∧
      ∀ s f, m.madeFor s = some f → (m.getStream alive id cache).1.madeFor s = some f := by
  rcases getStream_cases m alive id cache with ⟨-, s, hs, -, e⟩ | ⟨-, -, e⟩ | ⟨-, e⟩ <;> rw [e]
  · exact ⟨_, action?_push, ⟨s, rfl, h.cached id s hs⟩, by simp [Manager.pushAction, Manager.openCache], fun _ _ h => h⟩
  · exact ⟨_, action?_push, rfl, by simp [Manager.pushAction, Manager.openCache], fun _ _ h => h⟩
  · exact ⟨_, action?_push, rfl, by simp [Manager.pushAction], fun _ _ h => h⟩

theorem getStream_snd (m : Manager) (alive : Nat → Bool) (id : ServerId) (cache : Bool) :
    (m.getStream alive id cache).2 = m.actions.length := by
  rcases getStream_cases m alive id cache with ⟨-, s, -, -, e⟩ | ⟨-, -, e⟩ | ⟨-, e⟩ <;> rw [e] <;> rfl

theorem getStreamTo_snd (m : Manager) (e : ServerEndpoints) : (m.getStreamTo e).2 = m.actions.length :=
  congrArg List.length (buildServer_actions 0 e)

theorem getStreamTo_action? (m : Manager) (e : ServerEndpoints) (b : Nat) :
    (m.getStreamTo e).1.action? b =
      if b = m.actions.length then some (.existing (some m.streams.length)) else m.action? b := by
  have hb := buildServer_actions (m := m) 0 e
  rw [← hb, ← action?_congr hb, ← buildServer_streams (m := m) 0 e]
  exact action?_push b

theorem getStreamTo_streamCache (m : Manager) (e : ServerEndpoints) :
    (m.getStreamTo e).1.streamCache = m.streamCache := buildServer_streamCache 0 e

theorem getStreamTo_madeFor (m : Manager) (e : ServerEndpoints) (s : Nat) :
    (m.getStreamTo e).1.madeFor s = if s = m.streams.length then some (.endpoints e) else m.madeFor s := by
  rw [← madeFor_congr (buildServer_streams (m := m) 0 e), ← buildServer_streams (m := m) 0 e]
  exact madeFor_makeStream _ _ s

theorem getStreamTo_pushes (m : Manager) (e : ServerEndpoints) :
    ∃ act, (∀ b, (m.getStreamTo e).1.action? b = if b = m.actions.length then some act else m.action? b) ∧
      (m.getStreamTo e).1.Serves (.endpoints e) act ∧
      (m.getStreamTo e).1.actions.length = m.actions.length + 1 ∧
      ∀ s f, m.madeFor s = some f → (m.getStreamTo e).1.madeFor s = some f := by
  refine ⟨_, getStreamTo_action? m e, ⟨_, rfl, ?_⟩, ?_, fun s f hf => ?_⟩
  · rw [getStreamTo_madeFor, if_pos rfl]
  · simp [getStreamTo, Manager.pushAction, makeStream]
  · rw [getStreamTo_madeFor, if_neg (madeFor_ne_length hf)]; exact hf

/-- An action that reports its result ends, and nothing else happens. -/
theorem runAction_result (h : (m.runAction a act).2 = .result) : (m.runAction a act).1 = m.endAction a := by
  cases act with
  | existing o => rfl
  | request r =>
    rcases runAction_request m a r with ⟨-, e⟩ | ⟨-, server, -, e⟩ | ⟨-, -, e⟩ | ⟨-, e⟩ | ⟨-, e⟩ | ⟨-, e⟩ <;>
      rw [e] at h ⊢ <;> cases h

/-- An action that reports its result exposes a stream. -/
theorem result_stream (hok : m.ActOk act) (h : (m.runAction a act).2 = .result) : ∃ s, act.stream = some s := by
  cases act with
  | existing o =>
    obtain ⟨s, f, rfl, -⟩ := hok
    exact ⟨s, rfl⟩
  | request r =>
    rcases runAction_request m a r with ⟨-, e⟩ | ⟨-, server, -, e⟩ | ⟨-, -, e⟩ | ⟨-, e⟩ | ⟨hst, e⟩ | ⟨-, e⟩ <;>
      rw [e] at h
    · cases h
    · cases h
    · cases h
    · cases h
    · obtain ⟨hp, -⟩ := hok
      obtain ⟨id, st, g, o⟩ := r
      simp only at hst
      subst hst
      revert hp; cases g <;> cases o <;> simp [phaseOk, StateMachine.set, StreamGetAction.stream]
    · cases h

/-- An action that has its stream reports it at its next turn. -/
theorem stream_result {s : Nat} (hok : m.ActOk act) (hs : act.stream = some s) : (m.runAction a act).2 = .result := by
  cases act with
  | existing o => rfl
  | request r =>
    obtain ⟨hp, -⟩ := hok
    obtain ⟨id, ⟨v, c⟩, g, o⟩ := r
    obtain rfl : o = some s := hs
    revert hp; cases v <;> cases c <;> cases g <;> simp [phaseOk, runAction, update, updateRequest]

end AetherGateway.Streams.Manager
