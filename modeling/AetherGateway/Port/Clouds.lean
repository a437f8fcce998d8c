/-
  AetherGateway.Port.Clouds — the servers without an id that the port's calls add to the
  gateway cloud (see `AetherGateway.Port.LocalPort`).

  `BuildServer` looks up a server by its id only, so each stream that is opened to
  endpoints has its own new server, and the cloud only grows.
  - `clouds_iff`: streams opened to equal endpoints share their server exactly when no call
    opens one to endpoints that were opened before; and then the cloud has at most as many
    servers without an id as there were different endpoints asked for, as long as the
    cloud's answers name none either.
  - `duplicated_server`: two clients that call for the same endpoints.
-/

import Mathlib.Data.List.Dedup
import Mathlib.Data.List.Perm.Subperm
import AetherGateway.Port.Routing

namespace AetherGateway.Port

open AetherGateway.Streams AetherGateway.Runs

variable {hash : ServerEndpoints → UInt64} {s t : St} {m m' : Manager} {e : ServerEndpoints}

/-! ## Streams to endpoints and their servers -/

def endpoints? : ServeKind → Option ServerEndpoints
  | .id _ => none
  | .endpoints e => some e

/-- The streams that were made for endpoints, each with its server. -/
def opened (m : Manager) : List (ServerEndpoints × Nat) :=
  m.streams.filterMap fun st => (endpoints? st.madeFor).map (·, st.server)

/-- The servers without an id that were added to the cloud. -/
def unnamed (m : Manager) : List Nat := m.cloud.filter fun v => (m.servers[v]?).any (·.serverId == 0)

/-- Streams to equal endpoints go to one server. -/
def Reuses (s : St) : Prop := ∀ p ∈ opened s.mgr, ∀ q ∈ opened s.mgr, p.1 = q.1 → p.2 = q.2

def asked (s : St) : List ServerEndpoints := s.writes.filterMap fun w => endpoints? w.flow.server

def Bounded (s : St) : Prop := (unnamed s.mgr).length ≤ (asked s).dedup.length

/-- The call opens no stream to endpoints that were opened before. -/
def Fresh (hash : ServerEndpoints → UInt64) (s : St) (f : Flow) : Prop :=
  s.streamStore.lookup (f.key hash) = none → ∀ e ∈ endpoints? f.server, e ∉ (opened s.mgr).map (·.1)

def FreshCalls (hash : ServerEndpoints → UInt64) (d : UInt8) : St → List Call → Prop
  | _, [] => True
  | s, c :: calls => Fresh hash s (c.flow d) ∧ FreshCalls hash d (api hash d s c) calls

def NoReopen (hash : ServerEndpoints → UInt64) (s : St) : Ev → Prop
  | .input d calls => FreshCalls hash d s calls
  | _ => True

/-- The cloud answers with a server that has an id. -/
def NamedAnswer (_ : St) : Ev → Prop
  | .servers _ sds => ∀ sd ∈ sds.head?, sd.serverId ≠ 0
  | _ => True

/-! ## The manager's operations -/

structure Booked (m : Manager) : Prop where
  cloud : ∀ v ∈ m.cloud, v < m.servers.length
  opened : ∀ p ∈ opened m, p.2 < m.servers.length

structure Aside (m m' : Manager) : Prop where
  opened : opened m' = opened m
  booked : Booked m → Booked m'

theorem Aside.trans {m'' : Manager} (h : Aside m m') (h' : Aside m' m'') : Aside m m'' :=
  ⟨h'.opened.trans h.opened, fun hb => h'.booked (h.booked hb)⟩

theorem aside_frame (hs : m'.servers = m.servers) (hc : m'.cloud = m.cloud) (ho : opened m' = opened m) : Aside m m' :=
  ⟨ho, fun hb => ⟨by rw [hc, hs]; exact hb.cloud, by rw [ho, hs]; exact hb.opened⟩⟩

theorem aside_createServer (m : Manager) (id : ServerId) (e : ServerEndpoints) : Aside m (m.createServer id e).1 := by
  refine ⟨rfl, fun hb => ⟨fun v hv => ?_, fun p hp => ?_⟩⟩
  · simp only [Manager.createServer, List.length_append, List.length_singleton] at hv ⊢
    rcases List.mem_append.mp hv with hv | hv
    · have := hb.cloud v hv
      omega
    · rw [List.mem_singleton] at hv
      omega
  · have := hb.opened p hp
    simp only [Manager.createServer, List.length_append, List.length_singleton]
    omega

/-- A new server is one more without an id, or none more. -/
theorem unnamed_createServer (hb : Booked m) (id : ServerId) (e : ServerEndpoints) :
    (unnamed (m.createServer id e).1).length = (unnamed m).length + if id = 0 then 1 else 0 := by
  have old : ∀ v ∈ m.cloud, ((m.servers ++ [(⟨id, e.endpoints⟩ : Server)])[v]?).any (·.serverId == 0) =
      (m.servers[v]?).any (·.serverId == 0) := by
    intro v hv
    rw [List.getElem?_append_left (hb.cloud v hv)]
  show ((m.cloud ++ [m.servers.length]).filter fun v =>
    ((m.servers ++ [(⟨id, e.endpoints⟩ : Server)])[v]?).any (·.serverId == 0)).length = _
  rw [List.filter_append, List.filter_congr old, List.length_append]
  by_cases h0 : id = 0
  · simp [unnamed, h0]
  · simp [unnamed, h0]

theorem aside_buildServer (m : Manager) (id : ServerId) (e : ServerEndpoints) : Aside m (m.buildServer id e).1 := by
  unfold Manager.buildServer
  split
  · split
    · exact aside_frame rfl rfl rfl
    · exact aside_createServer m id e
  · exact aside_createServer m id e

theorem unnamed_buildServer (hb : Booked m) {id : ServerId} (h0 : id ≠ 0) (e : ServerEndpoints) :
    (unnamed (m.buildServer id e).1).length = (unnamed m).length := by
  unfold Manager.buildServer
  rw [if_pos h0]
  split
  · rfl
  · rw [unnamed_createServer hb, if_neg h0, Nat.add_zero]

theorem opened_makeStream (m : Manager) (v : Nat) (f : ServeKind) :
    opened (m.makeStream v f).1 = opened m ++ (endpoints? f).toList.map (·, v) := by
  unfold opened Manager.makeStream
  rw [List.filterMap_append]
  cases f with
  | id i => rfl
  | endpoints e => rfl

theorem aside_resolve (m : Manager) (a : Nat) (r : RequestServerStreamGetAction) (v : Nat) : Aside m (m.resolve a r v) :=
  aside_frame rfl rfl ((opened_makeStream m v (.id r.serverId)).trans (List.append_nil _))

theorem aside_runAction (m : Manager) (a : Nat) (act : StreamGetAction) :
    Aside m (m.runAction a act).1 ∧ unnamed (m.runAction a act).1 = unnamed m := by
  cases act with
  | existing o => exact ⟨aside_frame rfl rfl rfl, rfl⟩
  | request r =>
    rcases Manager.runAction_request m a r with ⟨-, e⟩ | ⟨-, v, -, e⟩ | ⟨-, -, e⟩ | ⟨-, e⟩ | ⟨-, e⟩ | ⟨-, e⟩ <;> rw [e]
    · exact ⟨aside_frame rfl rfl rfl, rfl⟩
    · exact ⟨aside_resolve m a r v, rfl⟩
    · exact ⟨aside_frame rfl rfl rfl, rfl⟩
    · exact ⟨aside_frame rfl rfl rfl, rfl⟩
    · exact ⟨aside_frame rfl rfl rfl, rfl⟩
    · exact ⟨aside_frame rfl rfl rfl, rfl⟩

theorem opened_setLinkState (m : Manager) (x : Nat) (l : LinkState) : opened (m.setLinkState x l) = opened m := by
  unfold opened Manager.setLinkState
  generalize m.streams = sts
  induction sts generalizing x with
  | nil => cases x <;> rfl
  | cons st sts ih =>
    cases x with
    | zero => rfl
    | succ x => simp only [List.modify_succ_cons, List.filterMap_cons, ih]

theorem aside_turn {ev : Ev} (h : TurnOf s m ev) : Aside s.mgr m := by
  cases ev with
  | update a =>
    obtain ⟨act, -, -, rfl⟩ := h
    exact (aside_runAction s.mgr a act).1
  | servers a sds =>
    obtain ⟨sd, rest, r, -, -, rfl⟩ := Manager.onServers_some h
    exact (aside_buildServer _ _ _).trans (aside_resolve _ _ _ _)
  | serversError a =>
    obtain ⟨r, -, rfl⟩ := Option.map_eq_some_iff.mp h
    exact aside_frame rfl rfl rfl
  | serversStop a =>
    obtain ⟨r, -, rfl⟩ := Option.map_eq_some_iff.mp h
    exact aside_frame rfl rfl rfl
  | _ => cases h

theorem unnamed_turn {ev : Ev} (h : TurnOf s m ev) (hb : Booked s.mgr) (hn : NamedAnswer s ev) :
    (unnamed m).length = (unnamed s.mgr).length := by
  cases ev with
  | update a =>
    obtain ⟨act, -, -, rfl⟩ := h
    rw [(aside_runAction s.mgr a act).2]
  | servers a sds =>
    obtain ⟨sd, rest, r, rfl, -, rfl⟩ := Manager.onServers_some h
    exact unnamed_buildServer hb (hn sd rfl) _
  | serversError a =>
    obtain ⟨r, -, rfl⟩ := Option.map_eq_some_iff.mp h
    rfl
  | serversStop a =>
    obtain ⟨r, -, rfl⟩ := Option.map_eq_some_iff.mp h
    rfl
  | _ => cases h

theorem aside_getStream (m : Manager) (alive : Nat → Bool) (id : ServerId) (cache : Bool) :
    Aside m (m.getStream alive id cache).1 ∧ unnamed (m.getStream alive id cache).1 = unnamed m := by
  rcases Manager.getStream_cases m alive id cache with ⟨-, x, -, -, e⟩ | ⟨-, -, e⟩ | ⟨-, e⟩ <;> rw [e]
  · exact ⟨aside_frame rfl rfl rfl, rfl⟩
  · exact ⟨aside_frame rfl rfl rfl, rfl⟩
  · exact ⟨aside_frame rfl rfl rfl, rfl⟩

/-- A call for endpoints makes a server and a stream to it. -/
theorem opened_getStreamTo (m : Manager) (e : ServerEndpoints) :
    opened (m.getStreamTo e).1 = opened m ++ [(e, m.servers.length)] :=
  opened_makeStream (m.createServer 0 e).1 m.servers.length (.endpoints e)

theorem booked_getStreamTo (hb : Booked m) (e : ServerEndpoints) : Booked (m.getStreamTo e).1 := by
  have hc := (aside_createServer m 0 e).booked hb
  refine ⟨hc.cloud, fun p hp => ?_⟩
  rw [opened_getStreamTo] at hp
  have hlen : (m.getStreamTo e).1.servers.length = m.servers.length + 1 := List.length_append
  rcases List.mem_append.mp hp with hp | hp
  · have := hb.opened p hp
    omega
  · rw [List.mem_singleton.mp hp]
    omega

theorem unnamed_getStreamTo (hb : Booked m) (e : ServerEndpoints) :
    (unnamed (m.getStreamTo e).1).length = (unnamed m).length + 1 := by
  rw [show unnamed (m.getStreamTo e).1 = unnamed (m.createServer 0 e).1 from rfl, unnamed_createServer hb, if_pos rfl]

/-! ## One call -/

theorem api_mgr (hash : ServerEndpoints → UInt64) (d : UInt8) (s : St) (c : Call) :
    (api hash d s c).mgr = (openStream hash s (c.flow d)).mgr := by
  obtain ⟨e, he, -⟩ := openStream_lookup hash s (c.flow d)
  rw [api, write_stored he c.data]

/-- A call opens a stream to new endpoints, on a server of its own, or none to endpoints. -/
theorem api_opens (hash : ServerEndpoints → UInt64) (d : UInt8) (s : St) (c : Call) :
    (s.streamStore.lookup ((c.flow d).key hash) = none ∧
      ∃ e, c.server = .endpoints e ∧ (api hash d s c).mgr = (s.mgr.getStreamTo e).1) ∨
    (Fresh hash s (c.flow d) ∧ Aside s.mgr (api hash d s c).mgr ∧ unnamed (api hash d s c).mgr = unnamed s.mgr) := by
  rw [api_mgr]
  cases hk : s.streamStore.lookup ((c.flow d).key hash) with
  | some e =>
    rw [openStream_found hk]
    have hne : ¬ s.streamStore.lookup ((c.flow d).key hash) = none := by rw [hk]; exact fun h => by cases h
    exact Or.inr ⟨fun hn => absurd hn hne, aside_frame rfl rfl rfl, rfl⟩
  | none =>
    rw [openStream_new hk]
    show (_ ∧ ∃ e, c.server = .endpoints e ∧ (gwStream s c.server).1 = _) ∨
      _ ∧ Aside s.mgr (gwStream s c.server).1 ∧ unnamed (gwStream s c.server).1 = _
    cases hc : c.server with
    | endpoints e => exact Or.inl ⟨rfl, e, rfl, rfl⟩
    | id i =>
      have hg := aside_getStream s.mgr (alive s) i true
      refine Or.inr ⟨fun _ e he => ?_, hg.1, hg.2⟩
      rw [show (c.flow d).server = .id i from hc] at he
      cases he

theorem api_asked (hi : Inv hash s) (d : UInt8) (c : Call) :
    asked (api hash d s c) = asked s ++ (endpoints? c.server).toList := by
  obtain ⟨g, hw, -, -⟩ := api_writes hi d c
  unfold asked
  rw [hw, List.filterMap_append]
  rfl

structure Tracks (s : St) : Prop where
  booked : Booked s.mgr
  asked : ∀ p ∈ opened s.mgr, p.1 ∈ asked s

theorem Tracks.api (h : Tracks s) (hi : Inv hash s) (d : UInt8) (c : Call) : Tracks (api hash d s c) := by
  have hasked := api_asked hi d c
  rcases api_opens hash d s c with ⟨-, e, hc, hm⟩ | ⟨-, ha, -⟩
  · refine ⟨by rw [hm]; exact booked_getStreamTo h.booked e, fun p hp => ?_⟩
    rw [hm, opened_getStreamTo] at hp
    rw [hasked]
    rcases List.mem_append.mp hp with hp | hp
    · exact List.mem_append_left _ (h.asked p hp)
    · rw [List.mem_singleton.mp hp, hc]
      exact List.mem_append_right _ (List.mem_singleton.mpr rfl)
  · refine ⟨ha.booked h.booked, fun p hp => ?_⟩
    rw [hasked]
    exact List.mem_append_left _ (h.asked p (by rw [← ha.opened]; exact hp))

/-- After a call the streams share their servers when they did before and the call opened
    nothing again. -/
theorem reuses_api (h : Tracks s) (d : UInt8) (c : Call) :
    Reuses (api hash d s c) ↔ Reuses s ∧ Fresh hash s (c.flow d) := by
  rcases api_opens hash d s c with ⟨hk, e, hc, hm⟩ | ⟨hf, ha, -⟩
  · have hfresh : Fresh hash s (c.flow d) ↔ e ∉ (opened s.mgr).map (·.1) := by
      constructor
      · intro hf
        refine hf hk e ?_
        rw [show (c.flow d).server = .endpoints e from hc]; rfl
      · intro hn _ e' he
        rw [show (c.flow d).server = .endpoints e from hc] at he
        cases he
        exact hn
    rw [hfresh]
    unfold Reuses
    rw [hm, opened_getStreamTo]
    constructor
    · intro hr
      refine ⟨fun p hp q hq => hr p (List.mem_append_left _ hp) q (List.mem_append_left _ hq), fun he => ?_⟩
      obtain ⟨p, hp, rfl⟩ := List.mem_map.mp he
      have hlt := h.booked.opened p hp
      have heq : p.2 = s.mgr.servers.length :=
        hr p (List.mem_append_left _ hp) _ (List.mem_append_right _ (List.mem_singleton.mpr rfl)) rfl
      omega
    · intro ⟨hr, hn⟩ p hp q hq hpq
      rcases List.mem_append.mp hp with hp | hp <;> rcases List.mem_append.mp hq with hq | hq
      · exact hr p hp q hq hpq
      · rw [List.mem_singleton] at hq
        subst hq
        exact absurd (List.mem_map.mpr ⟨p, hp, hpq⟩) hn
      · rw [List.mem_singleton] at hp
        subst hp
        exact absurd (List.mem_map.mpr ⟨q, hq, hpq.symm⟩) hn
      · rw [List.mem_singleton] at hp hq
        rw [hp, hq]
  · unfold Reuses
    rw [ha.opened]
    exact (and_iff_left hf).symm

/-- Each stream to endpoints is the only one to its endpoints, and the servers without an
    id are theirs. -/
structure Single (s : St) : Prop where
  nodup : ((opened s.mgr).map (·.1)).Nodup
  unnamed : (unnamed s.mgr).length = (opened s.mgr).length

theorem Single.bounded (h : Single s) (ht : Tracks s) : Bounded s := by
  have hsub : (opened s.mgr).map (·.1) ⊆ (asked s).dedup := by
    intro e he
    obtain ⟨p, hp, rfl⟩ := List.mem_map.mp he
    exact List.mem_dedup.mpr (ht.asked p hp)
  have hlen := (List.Nodup.subperm h.nodup hsub).length_le
  rw [List.length_map] at hlen
  unfold Bounded
  rw [h.unnamed]; exact hlen

theorem Single.api (h : Single s) (ht : Tracks s) (d : UInt8) (c : Call) (hf : Fresh hash s (c.flow d)) :
    Single (api hash d s c) := by
  rcases api_opens hash d s c with ⟨hk, e, hc, hm⟩ | ⟨-, ha, hu⟩
  · have hn := hf hk e (by rw [show (c.flow d).server = .endpoints e from hc]; rfl)
    refine ⟨?_, ?_⟩
    · rw [hm, opened_getStreamTo, List.map_append]
      refine List.nodup_append.mpr ⟨h.nodup, List.nodup_singleton _, fun a hae b hb => ?_⟩
      rw [List.map_singleton, List.mem_singleton] at hb
      rw [hb]
      intro heq
      subst heq
      exact hn hae
    · rw [hm, opened_getStreamTo, unnamed_getStreamTo ht.booked, h.unnamed]
      simp
  · exact ⟨by rw [ha.opened]; exact h.nodup, by rw [ha.opened, hu]; exact h.unnamed⟩

/-! ## Runs -/

theorem reuses_input (h : Tracks s) (hi : Inv hash s) (d : UInt8) (calls : List Call) :
    Reuses (input hash d s calls) ↔ Reuses s ∧ FreshCalls hash d s calls := by
  unfold input
  induction calls generalizing s with
  | nil => exact (and_iff_left trivial).symm
  | cons c calls ih =>
    show Reuses (calls.foldl (api hash d) (api hash d s c)) ↔ _
    rw [ih (h.api hi d c) (hi.api d c), reuses_api h d c, FreshCalls, and_assoc]

theorem Tracks.input (h : Tracks s) (hi : Inv hash s) (d : UInt8) (calls : List Call) :
    Tracks (input hash d s calls) := by
  unfold Port.input
  induction calls generalizing s with
  | nil => exact h
  | cons c calls ih => exact ih (h.api hi d c) (hi.api d c)

theorem Single.input (h : Single s) (ht : Tracks s) (hi : Inv hash s) (d : UInt8) (calls : List Call)
    (hf : FreshCalls hash d s calls) : Single (input hash d s calls) := by
  unfold Port.input
  induction calls generalizing s with
  | nil => exact h
  | cons c calls ih => exact ih (h.api ht d c hf.1) (ht.api hi d c) (hi.api d c) hf.2

/-- Only calls open streams to endpoints. -/
theorem Moved.aside {ev : Ev} (h : Moved hash s ev t) :
    (∃ d calls, ev = .input d calls ∧ t = Port.input hash d s calls) ∨
      (Aside s.mgr t.mgr ∧ NoReopen hash s ev ∧ asked t = asked s ∧
        (Booked s.mgr → NamedAnswer s ev → (unnamed t.mgr).length = (unnamed s.mgr).length)) := by
  cases h with
  | input d calls => exact Or.inl ⟨d, calls, rfl, rfl⟩
  | @turn ev a act m hs _ _ _ =>
    refine Or.inr ⟨aside_turn hs, ?_, rfl, fun hb hn => unnamed_turn hs hb hn⟩
    cases ev with
    | input d calls => cases hs
    | _ => trivial
  | tie _ _ _ _ _ _ => exact Or.inr ⟨aside_frame rfl rfl rfl, trivial, rfl, fun _ _ => rfl⟩
  | @link x st _ _ =>
    have he := linkUpdate_erases s x st
    have hm := he.mgr
    refine Or.inr ⟨aside_frame ?_ ?_ ?_, trivial, ?_, fun _ _ => ?_⟩
    · rw [hm]; rfl
    · rw [hm]; rfl
    · rw [hm]; exact opened_setLinkState _ _ _
    · unfold asked
      rw [he.frame]
    · rw [hm]; rfl
  | @streamUpdate k e hk =>
    have he := erases_emitUpdate s e.stream.id
    have hm := he.mgr
    refine Or.inr ⟨aside_frame ?_ ?_ ?_, trivial, ?_, fun _ _ => ?_⟩
    · rw [hm]
    · rw [hm]
    · rw [hm]
    · unfold asked
      rw [he.frame]
    · rw [hm]
  | forward _ _ _ => exact Or.inr ⟨aside_frame rfl rfl rfl, trivial, rfl, fun _ _ => rfl⟩
  | packet _ _ => exact Or.inr ⟨aside_frame rfl rfl rfl, trivial, rfl, fun _ _ => rfl⟩

theorem Tracks.step {ev : Ev} (h : Tracks s) (hi : Inv hash s) (hs : step hash s ev = some t) : Tracks t := by
  rcases (step_moved hi hs).aside with ⟨d, calls, -, rfl⟩ | ⟨ha, -, hasked, -⟩
  · exact h.input hi d calls
  · refine ⟨ha.booked h.booked, fun p hp => ?_⟩
    rw [hasked]; exact h.asked p (by rw [← ha.opened]; exact hp)

theorem Single.step {ev : Ev} (h : Single s) (ht : Tracks s) (hi : Inv hash s) (hf : NoReopen hash s ev)
    (hn : NamedAnswer s ev) (hs : step hash s ev = some t) : Single t := by
  rcases (step_moved hi hs).aside with ⟨d, calls, rfl, rfl⟩ | ⟨ha, -, -, hu⟩
  · exact h.input ht hi d calls hf
  · exact ⟨by rw [ha.opened]; exact h.nodup, by rw [ha.opened, hu ht.booked hn]; exact h.unnamed⟩

/-- A step keeps the sharing exactly when it opens nothing again. -/
theorem reuses_step {ev : Ev} (h : Tracks s) (hi : Inv hash s) (hs : step hash s ev = some t) :
    Reuses t ↔ Reuses s ∧ NoReopen hash s ev := by
  rcases (step_moved hi hs).aside with ⟨d, calls, rfl, rfl⟩ | ⟨ha, hn, -, -⟩
  · exact reuses_input h hi d calls
  · unfold Reuses
    rw [ha.opened]
    exact (and_iff_left hn).symm

theorem init_tracks (known : List Server) : Tracks (init known) where
  booked := ⟨fun v hv => (by cases hv), fun p hp => (by cases hp)⟩
  asked p hp := by cases hp

/-- In a run streams opened to equal endpoints share their server exactly when no call
    opens one to endpoints opened before; and then, when no cloud answer names a server
    without an id, there are at most as many of those as endpoints asked for. -/
theorem clouds_iff (hash : ServerEndpoints → UInt64) (known : List Server) (es : List Ev) :
    (Always (step hash) Reuses (init known) es ↔ Meets (step hash) (NoReopen hash) (init known) es) ∧
      (Meets (step hash) (fun s ev => NoReopen hash s ev ∧ NamedAnswer s ev) (init known) es →
        Always (step hash) Bounded (init known) es) := by
  constructor
  · refine always_iff_meets (I := fun s => Inv hash s ∧ Tracks s ∧ Reuses s) (fun s h => h.2.2) ?_ ?_
      ⟨init_inv known, init_tracks known, fun p hp => by cases hp⟩
    · intro s ev t ⟨hi, ht, hr⟩ hc hs
      exact ⟨step_inv hi hs, ht.step hi hs, (reuses_step ht hi hs).mpr ⟨hr, hc⟩⟩
    · intro s ev ⟨hi, ht, _⟩ hc
      cases ev with
      | input d calls => exact ⟨_, rfl, fun hr => hc ((reuses_input ht hi d calls).mp hr).2⟩
      | _ => exact absurd trivial hc
  · refine always_of_meets (I := fun s => Inv hash s ∧ Tracks s ∧ Single s) (fun s h => h.2.2.bounded h.2.1) ?_
      ⟨init_inv known, init_tracks known, List.nodup_nil, rfl⟩
    intro s ev t ⟨hi, ht, h⟩ ⟨hf, hn⟩ hs
    exact ⟨step_inv hi hs, ht.step hi hs, h.step ht hi hf hn hs⟩

/-- Two clients of device 1 call for the same endpoints: two servers for one request value. -/
theorem duplicated_server :
    let es := [Ev.input 1 [.toServer 1 ⟨[]⟩ [], .toServer 2 ⟨[]⟩ []]]
    ¬ Always (step fun _ => 0) Bounded (init []) es := by
  intro es h
  have hlast : Bounded (input (fun _ => 0) 1 (init []) [.toServer 1 ⟨[]⟩ [], .toServer 2 ⟨[]⟩ []]) := h.2 _ rfl
  revert hlast
  unfold Bounded
  decide

end AetherGateway.Port
