/-
  AetherGateway.Streams.Servers — the server behind a stream (see
  `AetherGateway.Streams.Manager`).

  - `Kept`: a property of the servers, the registry, the cloud and the streams which
    building a server and making a stream on a fitting one (`Fits`) keep is kept by every
    operation of the manager, as long as the cloud answers a request for an id with a
    server of that id first (`Answered`).
  - `genuine_kept`: a stream made for an id goes to a server of that id and a stream made
    for endpoints to a server with those endpoints (`Genuine.goes`).
-/

import AetherGateway.Streams.ManagerProofs

namespace AetherGateway.Streams.Manager

variable {m m' : Manager} {a : Nat} {act : StreamGetAction} {r : RequestServerStreamGetAction}

/-- Server `v` is one asked for by `f`. -/
def Behind (m : Manager) (v : Nat) : ServeKind → Prop
  | .id i => ∃ sv, m.servers[v]? = some sv ∧ sv.serverId = i
  | .endpoints e => ∃ sv, m.servers[v]? = some sv ∧ sv.endpoints = e.endpoints

structure Genuine (m : Manager) : Prop where
  registry : ∀ i v, m.registry i = some v → m.Behind v (.id i)
  streams : ∀ (x : Nat) (st : ServerStream), m.streams[x]? = some st → m.Behind st.server st.madeFor

def Goes (m : Manager) (x : Nat) (f : ServeKind) : Prop :=
  ∃ st : ServerStream, m.streams[x]? = some st ∧ m.Behind st.server f

/-- The first server of the cloud's answer has the id that `a` asked for. -/
def Answered (m : Manager) (a : Nat) (sds : List ServerDescriptor) : Prop :=
  ∀ sd ∈ sds.head?, ∀ r ∈ m.requesting a, sd.serverId = r.serverId

instance (m : Manager) (a : Nat) (sds : List ServerDescriptor) : Decidable (m.Answered a sds) :=
  inferInstanceAs (Decidable (∀ sd ∈ sds.head?, ∀ r ∈ m.requesting a, sd.serverId = r.serverId))

/-- There is a right answer to every request. -/
theorem answered_requesting (hr : m.requesting a = some r) : m.Answered a [⟨r.serverId, []⟩] := by
  intro sd hsd r' hr'
  cases Option.some.inj hsd
  cases Option.some.inj (hr.symm.trans hr')
  rfl

theorem init_genuine (known : List Server) : Genuine (.init known) := by
  refine ⟨fun i v h => ?_, fun x st h => by simp [init] at h⟩
  obtain ⟨hv, hi, -⟩ := List.findIdx?_eq_some_iff_getElem.mp h
  exact ⟨known[v], List.getElem?_eq_getElem hv, by simpa using hi⟩

theorem Genuine.congr (h : Genuine m) (hs : m'.servers = m.servers) (hr : m'.registry = m.registry)
    (hst : m'.streams = m.streams) : Genuine m' := by
  have hb : ∀ v f, m.Behind v f → m'.Behind v f := by
    intro v f hv
    cases f with
    | id i => obtain ⟨sv, hg, e⟩ := hv; exact ⟨sv, by rw [hs]; exact hg, e⟩
    | endpoints e => obtain ⟨sv, hg, e⟩ := hv; exact ⟨sv, by rw [hs]; exact hg, e⟩
  exact ⟨fun i v hi => hb v _ (h.registry i v (by rw [← hr]; exact hi)),
    fun x st hx => hb _ _ (h.streams x st (by rw [← hst]; exact hx))⟩

/-- Under right answers the label of a stream and its server agree. -/
theorem Genuine.goes (h : Genuine m) {x : Nat} {f : ServeKind} (hf : m.madeFor x = some f) : m.Goes x f := by
  obtain ⟨st, hst, rfl⟩ := Option.map_eq_some_iff.mp hf
  exact ⟨st, hst, h.streams x st hst⟩

theorem Genuine.setLinkState (h : Genuine m) (s : Nat) (l : LinkState) : Genuine (m.setLinkState s l) := by
  refine ⟨h.registry, fun x st hx => ?_⟩
  unfold Manager.setLinkState at hx
  rw [List.getElem?_modify] at hx
  obtain ⟨st₀, h₀, rfl⟩ := Option.map_eq_some_iff.mp hx
  have := h.streams x st₀ h₀
  show m.Behind _ _
  split
  · exact this
  · exact this

theorem Genuine.makeStream (h : Genuine m) {v : Nat} {f : ServeKind} (hv : m.Behind v f) :
    Genuine (m.makeStream v f).1 := by
  refine ⟨h.registry, fun x st hx => ?_⟩
  simp only [Manager.makeStream] at hx
  rcases List.mem_append.mp (List.mem_of_getElem? hx) with hmem | hmem
  · obtain ⟨y, hy⟩ := List.mem_iff_getElem?.mp hmem
    exact h.streams y st hy
  · rw [List.mem_singleton] at hmem
    rw [hmem]; exact hv

theorem behind_createServer (id : ServerId) (e : ServerEndpoints) {v : Nat} {f : ServeKind} (h : m.Behind v f) :
    (m.createServer id e).1.Behind v f := by
  cases f with
  | id i =>
    obtain ⟨sv, hg, hi⟩ := h
    exact ⟨sv, by rw [createServer, List.getElem?_append_left (List.getElem?_eq_some_iff.mp hg).1]; exact hg, hi⟩
  | endpoints e' =>
    obtain ⟨sv, hg, hi⟩ := h
    exact ⟨sv, by rw [createServer, List.getElem?_append_left (List.getElem?_eq_some_iff.mp hg).1]; exact hg, hi⟩

/-- The server built last is there, with the id and the endpoints it was built with. -/
theorem createServer_new (m : Manager) (id : ServerId) (e : ServerEndpoints) :
    (m.createServer id e).1.servers[(m.createServer id e).2]? = some ⟨id, e.endpoints⟩ := by
  simp [createServer]

theorem createServer_registry (m : Manager) (id : ServerId) (e : ServerEndpoints) (i : ServerId) :
    (m.createServer id e).1.registry i = if id ≠ 0 ∧ i = id then some m.servers.length else m.registry i := by
  unfold createServer
  by_cases h0 : id = 0
  · simp [h0]
  · by_cases hi : i = id
    · simp [h0, hi]
    · simp [h0, hi]

theorem Genuine.createServer (h : Genuine m) (id : ServerId) (e : ServerEndpoints) :
    Genuine (m.createServer id e).1 := by
  refine ⟨fun i v hi => ?_, fun x st hx => behind_createServer id e (h.streams x st hx)⟩
  rw [createServer_registry] at hi
  split at hi
  · next hid =>
    cases hi
    exact ⟨_, createServer_new m id e, hid.2.symm⟩
  · exact behind_createServer id e (h.registry i v hi)

/-! ## What building a server and making a stream keep -/

/-- Server `v` is one to make a stream on for `f`: registered under the id, or without an
    id as asked for. -/
def Fits (m : Manager) (v : Nat) : ServeKind → Prop
  | .id i => m.registry i = some v ∨ i = 0 ∧ m.Behind v (.id 0)
  | .endpoints e => m.Behind v (.endpoints e)

structure Kept (P : Manager → Prop) : Prop where
  frame : ∀ {m m' : Manager}, P m → m'.servers = m.servers → m'.registry = m.registry → m'.added = m.added →
    m'.cloud = m.cloud → m'.streams = m.streams → P m'
  buildServer : ∀ {m : Manager} (id : ServerId) (e : ServerEndpoints), P m → P (m.buildServer id e).1
  makeStream : ∀ {m : Manager} (v : Nat) (f : ServeKind), P m → m.Fits v f → P (m.makeStream v f).1

/-- Every outcome of `BuildServer`: the registered server, or a new one. -/
theorem buildServer_cases (m : Manager) (id : ServerId) (e : ServerEndpoints) :
    (id ≠ 0 ∧ ∃ v, m.registry id = some v ∧ m.buildServer id e = (m, v)) ∨
      ((id ≠ 0 → m.registry id = none) ∧ m.buildServer id e = m.createServer id e) := by
  unfold buildServer
  split
  · next hne =>
    split
    · next v hv => exact Or.inl ⟨hne, v, hv, rfl⟩
    · next hn => exact Or.inr ⟨fun _ => hn, rfl⟩
  · next h0 => exact Or.inr ⟨fun hne => absurd hne h0, rfl⟩

/-- A built server is one to make a stream on for its id, and without an id for its endpoints. -/
theorem fits_buildServer (m : Manager) (id : ServerId) (e : ServerEndpoints) :
    (m.buildServer id e).1.Fits (m.buildServer id e).2 (.id id) ∧
      (id = 0 → (m.buildServer id e).1.Fits (m.buildServer id e).2 (.endpoints e)) := by
  rcases buildServer_cases m id e with ⟨hne, v, hv, h⟩ | ⟨-, h⟩ <;> rw [h]
  · exact ⟨Or.inl hv, fun h0 => absurd h0 hne⟩
  · refine ⟨?_, fun _ => ⟨_, createServer_new m id e, rfl⟩⟩
    by_cases h0 : id = 0
    · subst h0
      exact Or.inr ⟨rfl, _, createServer_new m 0 e, rfl⟩
    · left
      rw [createServer_registry, if_pos ⟨h0, rfl⟩]
      rfl

namespace Kept

variable {P : Manager → Prop}

theorem resolve (hk : Kept P) (h : P m) (a : Nat) {v : Nat} (hv : m.Fits v (.id r.serverId)) : P (m.resolve a r v) :=
  hk.frame (hk.makeStream v (.id r.serverId) h hv) rfl rfl rfl rfl rfl

theorem getStream (hk : Kept P) (h : P m) (alive : Nat → Bool) (id : ServerId) (cache : Bool) :
    P (m.getStream alive id cache).1 := by
  rcases getStream_cases m alive id cache with ⟨-, s, -, -, e⟩ | ⟨-, -, e⟩ | ⟨-, e⟩ <;> rw [e]
  · exact hk.frame h rfl rfl rfl rfl rfl
  · exact hk.frame h rfl rfl rfl rfl rfl
  · exact hk.frame h rfl rfl rfl rfl rfl

theorem getStreamTo (hk : Kept P) (h : P m) (e : ServerEndpoints) : P (m.getStreamTo e).1 :=
  hk.frame (hk.makeStream _ (.endpoints e) (hk.buildServer 0 e h) ((fits_buildServer m 0 e).2 rfl)) rfl rfl rfl rfl rfl

theorem runAction (hk : Kept P) (h : P m) (a : Nat) (act : StreamGetAction) : P (m.runAction a act).1 := by
  cases act with
  | existing o => exact hk.frame h rfl rfl rfl rfl rfl
  | request r =>
    rcases runAction_request m a r with ⟨-, e⟩ | ⟨-, v, hv, e⟩ | ⟨-, -, e⟩ | ⟨-, e⟩ | ⟨-, e⟩ | ⟨-, e⟩ <;> rw [e]
    · exact h
    · exact hk.resolve h a (Or.inl hv)
    · exact hk.frame h rfl rfl rfl rfl rfl
    · exact hk.frame h rfl rfl rfl rfl rfl
    · exact hk.frame h rfl rfl rfl rfl rfl
    · exact hk.frame h rfl rfl rfl rfl rfl

theorem onServers (hk : Kept P) (h : P m) {sds : List ServerDescriptor} (ha : m.Answered a sds)
    (hs : m.onServers a sds = some m') : P m' := by
  obtain ⟨sd, rest, r, rfl, hr, rfl⟩ := onServers_some hs
  have hid : sd.serverId = r.serverId := ha sd rfl r hr
  refine hk.resolve (hk.buildServer _ _ h) a ?_
  rw [← hid]; exact (fits_buildServer m _ _).1

theorem onServersError (hk : Kept P) (h : P m) (hs : m.onServersError a = some m') : P m' := by
  obtain ⟨r, -, rfl⟩ := Option.map_eq_some_iff.mp hs
  exact hk.frame h rfl rfl rfl rfl rfl

theorem onServersStop (hk : Kept P) (h : P m) (hs : m.onServersStop a = some m') : P m' := by
  obtain ⟨r, -, rfl⟩ := Option.map_eq_some_iff.mp hs
  exact hk.frame h rfl rfl rfl rfl rfl

end Kept

theorem genuine_kept : Kept Genuine where
  frame h hs hr _ _ hst := h.congr hs hr hst
  buildServer {m} id e h := by
    rcases buildServer_cases m id e with ⟨-, v, -, hb⟩ | ⟨-, hb⟩ <;> rw [hb]
    · exact h
    · exact h.createServer id e
  makeStream v f h hv := by
    refine h.makeStream ?_
    cases f with
    | id i =>
      rcases hv with hv | ⟨rfl, hv⟩
      · exact h.registry i v hv
      · exact hv
    | endpoints e => exact hv

end AetherGateway.Streams.Manager
