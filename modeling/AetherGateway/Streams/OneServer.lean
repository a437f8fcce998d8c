/-
  AetherGateway.Streams.OneServer — the servers the manager creates, in every run of its
  callers (see `AetherGateway.Streams.Callers`).

  The registry is looked up when a resolution starts and again when its answer comes
  (`buildServer`); other resolutions of the id may have ended in between.
  - `kept`: what the manager's operations keep (`Manager.Kept`) holds in every run, as long
    as the cloud answers a request for an id with a server of that id first (`Answering`).
  - `one_server_per_id`: one server at most is created for a nonzero id, added to the
    registry and to the cloud exactly once and never beside a registered one; every stream
    made for the id goes to it.
-/

import AetherGateway.Streams.Callers
import AetherGateway.Streams.Servers

namespace AetherGateway.Streams

namespace Manager

variable {m m' : Manager}

/-! ## What is created -/

/-- A new server takes no id from another. -/
theorem createServer_keeps {id : ServerId} (hn : id ≠ 0 → m.registry id = none) (e : ServerEndpoints) {i : ServerId}
    {v : Nat} (hi : m.registry i = some v) : (m.createServer id e).1.registry i = some v := by
  rw [createServer_registry]
  split
  · next hc =>
    obtain ⟨hne, rfl⟩ := hc
    rw [hn hne] at hi; cases hi
  · exact hi

structure Grew (m m' : Manager) : Prop where
  servers : m.servers <+: m'.servers
  registry : ∀ i v, m.registry i = some v → m'.registry i = some v

theorem Grew.server {v : Nat} {sv : Server} (h : Grew m m') (hv : m.servers[v]? = some sv) :
    m'.servers[v]? = some sv := by
  obtain ⟨l, hl⟩ := h.servers
  rw [← hl, List.getElem?_append_left (List.getElem?_eq_some_iff.mp hv).1]
  exact hv

theorem grew_kept (m₀ : Manager) : Kept (Grew m₀) where
  frame h hs hr _ _ _ := ⟨by rw [hs]; exact h.servers, fun i v hi => by rw [hr]; exact h.registry i v hi⟩
  buildServer {m} id e h := by
    rcases buildServer_cases m id e with ⟨-, v, -, hb⟩ | ⟨hn, hb⟩ <;> rw [hb]
    · exact h
    · exact ⟨h.servers.trans (List.prefix_append _ _), fun i v hi => createServer_keeps hn e (h.registry i v hi)⟩
  makeStream v f h _ := ⟨h.servers, h.registry⟩

/-- The created servers, those from `k` on: each with an id is registered and was added to
    the registry once, each is in the cloud once, and a stream made for an id goes to the
    registered server. -/
structure OneEach (k : Nat) (m : Manager) : Prop where
  known : k ≤ m.servers.length
  registered : ∀ v sv, k ≤ v → m.servers[v]? = some sv → sv.serverId ≠ 0 → m.registry sv.serverId = some v
  added : ∀ v, m.added.filter (·.2 == v) =
    ((m.servers[v]?).filter fun sv => k ≤ v ∧ sv.serverId ≠ 0).toList.map fun sv => (sv.serverId, v)
  cloud : m.cloud = List.range' k (m.servers.length - k)
  streams : ∀ (x : Nat) (st : ServerStream) (i : ServerId), m.streams[x]? = some st → st.madeFor = .id i → i ≠ 0 →
    m.registry i = some st.server

theorem OneEach.added_createServer {k : Nat} (h : OneEach k m) (id : ServerId) (e : ServerEndpoints) (v : Nat) :
    (m.createServer id e).1.added.filter (·.2 == v) =
      (((m.createServer id e).1.servers[v]?).filter fun sv => k ≤ v ∧ sv.serverId ≠ 0).toList.map
        fun sv => (sv.serverId, v) := by
  have hk := h.known
  have hold := h.added v
  rcases Nat.lt_trichotomy v m.servers.length with hlt | rfl | hgt
  · have hne : m.servers.length ≠ v := by omega
    simp only [Manager.createServer, List.getElem?_append_left hlt, ← hold]
    split
    · simp [hne]
    · rfl
  · -- the new server is the only one that is added now
    rw [List.getElem?_eq_none (Nat.le_refl _)] at hold
    simp only [Manager.createServer, List.getElem?_concat_length]
    split
    · next h0 => simp [List.filter_append, hold, h0, hk, Option.filter_some]
    · next h0 => simp [hold, not_not.mp h0]
  · have hne : m.servers.length ≠ v := by omega
    rw [List.getElem?_eq_none (by omega)] at hold
    have hlen : m.servers.length + 1 ≤ v := hgt
    simp only [Manager.createServer]
    rw [List.getElem?_eq_none (by simpa using hlen)]
    split
    · simp [List.filter_append, hold, hne]
    · exact hold

theorem OneEach.createServer {k : Nat} (h : OneEach k m) {id : ServerId} (hn : id ≠ 0 → m.registry id = none)
    (e : ServerEndpoints) : OneEach k (m.createServer id e).1 := by
  have hk := h.known
  refine ⟨?_, fun v sv hkv hv h0 => ?_, h.added_createServer id e, ?_,
    fun x st i hx hf h0 => createServer_keeps hn e (h.streams x st i hx hf h0)⟩
  · simp only [Manager.createServer, List.length_append, List.length_singleton]
    omega
  · simp only [Manager.createServer] at hv
    by_cases hlt : v < m.servers.length
    · rw [List.getElem?_append_left hlt] at hv
      exact createServer_keeps hn e (h.registered v sv hkv hv h0)
    · have hle : v < m.servers.length + 1 := by simpa using (List.getElem?_eq_some_iff.mp hv).1
      obtain rfl : v = m.servers.length := by omega
      simp only [List.getElem?_concat_length, Option.some.injEq] at hv
      subst hv
      rw [createServer_registry, if_pos ⟨h0, rfl⟩]
  · have hlen : (m.createServer id e).1.servers.length = m.servers.length + 1 := by simp [Manager.createServer]
    show m.cloud ++ [m.servers.length] = _
    rw [hlen, h.cloud, show m.servers.length + 1 - k = (m.servers.length - k) + 1 by omega, List.range'_concat]
    congr 2
    omega

theorem oneEach_kept (k : Nat) : Kept (OneEach k) where
  frame h hs hr ha hc hst := by
    refine ⟨by rw [hs]; exact h.known, fun v sv hkv hv h0 => ?_, fun v => by rw [ha, hs]; exact h.added v,
      by rw [hc, hs]; exact h.cloud, fun x st i hx hf h0 => ?_⟩
    · rw [hr]; exact h.registered v sv hkv (by rw [← hs]; exact hv) h0
    · rw [hr]; exact h.streams x st i (by rw [← hst]; exact hx) hf h0
  buildServer {m} id e h := by
    rcases buildServer_cases m id e with ⟨-, v, -, hb⟩ | ⟨hn, hb⟩ <;> rw [hb]
    · exact h
    · exact h.createServer hn e
  makeStream {m} v f h hv := by
    refine ⟨h.known, h.registered, h.added, h.cloud, fun x st i hx hf h0 => ?_⟩
    simp only [Manager.makeStream] at hx
    rcases List.mem_append.mp (List.mem_of_getElem? hx) with hmem | hmem
    · obtain ⟨y, hy⟩ := List.mem_iff_getElem?.mp hmem
      exact h.streams y st i hy hf h0
    · rw [List.mem_singleton] at hmem
      subst hmem
      cases hf
      rcases hv with hv | ⟨h0', -⟩
      · exact hv
      · exact absurd h0' h0

theorem init_oneEach (known : List Server) : OneEach known.length (.init known) where
  known := Nat.le_refl _
  registered v sv hkv hv _ := by
    have hlt := (List.getElem?_eq_some_iff.mp hv).1
    simp only [init] at hlt
    omega
  added v := by
    by_cases hv : v < known.length
    · have hn : ¬ known.length ≤ v := by omega
      simp [init, hn]
    · simp [init, List.getElem?_eq_none (Nat.le_of_not_lt hv)]
  cloud := by simp [init]
  streams x st i hx := by simp [init] at hx

end Manager

/-! ## Runs -/

namespace Callers

open AetherGateway.Runs

variable {s t : St} {es es' : List Ev} {known : List Server}

/-- The cloud answers a request for an id with a server of that id first. -/
def Answering (s : St) : Ev → Prop
  | .servers a sds => s.mgr.Answered a sds
  | _ => True

instance (s : St) : (e : Ev) → Decidable (Answering s e)
  | .servers a sds => inferInstanceAs (Decidable (s.mgr.Answered a sds))
  | .getStream _ _ | .getStreamTo _ | .update _ | .serversError _ | .serversStop _ | .drop _ => .isTrue trivial

theorem update_mgr (s : St) (a : Nat) (act : StreamGetAction) : (update s a act).mgr = (s.mgr.runAction a act).1 := by
  unfold update
  split
  · next h => rw [h]
  · next h => rw [h]

theorem kept_step {P : Manager → Prop} (hk : Manager.Kept P) {e : Ev} (h : P s.mgr) (ha : Answering s e)
    (hs : step s e = some t) : P t.mgr := by
  cases e with
  | getStream id cache => cases hs; exact hk.getStream h _ id cache
  | getStreamTo e => cases hs; exact hk.getStreamTo h e
  | update a =>
    obtain ⟨act, -, rfl⟩ := Option.map_eq_some_iff.mp hs
    rw [update_mgr]; exact hk.runAction h a act
  | servers a sds =>
    obtain ⟨mgr, hm, rfl⟩ := Option.map_eq_some_iff.mp hs
    exact hk.onServers h ha hm
  | serversError a =>
    obtain ⟨mgr, hm, rfl⟩ := Option.map_eq_some_iff.mp hs
    exact hk.onServersError h hm
  | serversStop a =>
    obtain ⟨mgr, hm, rfl⟩ := Option.map_eq_some_iff.mp hs
    exact hk.onServersStop h hm
  | drop a => cases hs; exact h

theorem kept {P : Manager → Prop} (hk : Manager.Kept P) (h : P s.mgr) (ha : Meets step Answering s es)
    (hs : exec step s es = some t) : P t.mgr :=
  guarded_invariant (I := fun s => P s.mgr) (fun _ _ _ h ha hs => kept_step hk h ha hs) h ha hs

/-- `s` is a state of the run and `t` a later one: a server that was created for a nonzero
    id is the only one created for it; from its creation on, when no server of the id was
    registered, it is once in the cloud, has been added to the registry once and is the one
    registered under its id; every stream made for the id goes to the registered server. -/
theorem one_server_per_id (ha : Meets step Answering (init known) (es ++ es'))
    (hs : exec step (init known) es = some s) (ht : exec step s es' = some t) :
    (∀ v sv, known.length ≤ v → t.mgr.servers[v]? = some sv → sv.serverId ≠ 0 →
      (∀ w sw, known.length ≤ w → t.mgr.servers[w]? = some sw → sw.serverId = sv.serverId → w = v) ∧
      (s.mgr.servers.length ≤ v → s.mgr.registry sv.serverId = none) ∧
      s.mgr.cloud.count v = (if v < s.mgr.servers.length then 1 else 0) ∧
      s.mgr.added.filter (·.2 == v) = (if v < s.mgr.servers.length then [(sv.serverId, v)] else []) ∧
      ∀ i, s.mgr.registry i = some v ↔ i = sv.serverId ∧ v < s.mgr.servers.length) ∧
    ∀ (x : Nat) (st : ServerStream) (i : ServerId), t.mgr.streams[x]? = some st → st.madeFor = .id i → i ≠ 0 →
      t.mgr.registry i = some st.server := by
  obtain ⟨ha, ha'⟩ := (meets_append hs).mp ha
  have hg := kept Manager.genuine_kept (Manager.init_genuine known) ha hs
  have hos := kept (Manager.oneEach_kept _) (Manager.init_oneEach known) ha hs
  have hot := kept (Manager.oneEach_kept _) hos ha' ht
  have hgrew : s.mgr.Grew t.mgr := kept (Manager.grew_kept s.mgr) ⟨List.prefix_refl _, fun _ _ h => h⟩ ha' ht
  -- what `s` has registered is there in `t`, as it was
  have old : ∀ i v, s.mgr.registry i = some v → ∃ sv, t.mgr.servers[v]? = some sv ∧ sv.serverId = i ∧
      v < s.mgr.servers.length := by
    intro i v hi
    obtain ⟨sv, hv, hid⟩ := hg.registry i v hi
    exact ⟨sv, hgrew.server hv, hid, (List.getElem?_eq_some_iff.mp hv).1⟩
  refine ⟨fun v sv hkv hv h0 => ?_, hot.streams⟩
  have hreg := hot.registered v sv hkv hv h0
  refine ⟨fun w sw hkw hw hid => ?_, fun hle => ?_, ?_, ?_, fun i => ⟨fun hi => ?_, fun ⟨hi, hlt⟩ => ?_⟩⟩
  · have := hot.registered w sw hkw hw (by rw [hid]; exact h0)
    rw [hid, hreg] at this
    cases this; rfl
  · cases hr : s.mgr.registry sv.serverId with
    | none => rfl
    | some w =>
      obtain ⟨-, -, -, hlt⟩ := old _ w hr
      have := hgrew.registry _ w hr
      rw [hreg] at this
      cases this
      omega
  · have hk := hos.known
    rw [hos.cloud, (List.nodup_range' : (List.range' _ _).Nodup).count]
    simp only [List.mem_range'_1]
    congr 1
    refine propext ⟨fun h => ?_, fun h => ?_⟩ <;> omega
  · rw [hos.added v]
    split
    · next hlt =>
      have hvs := List.getElem?_eq_getElem hlt
      have hvt := hgrew.server hvs
      rw [hv] at hvt
      rw [hvs.trans hvt.symm]
      simp [Option.filter_some, hkv, h0]
    · next hge => rw [List.getElem?_eq_none (Nat.le_of_not_lt hge)]; rfl
  · obtain ⟨sv', hv', hid, hlt⟩ := old i v hi
    rw [hv] at hv'
    cases hv'
    exact ⟨hid.symm, hlt⟩
  · subst hi
    have hvs := List.getElem?_eq_getElem hlt
    have hvt := hgrew.server hvs
    rw [hv] at hvt
    exact hos.registered v sv hkv (hvs.trans hvt.symm) h0

/-- Two resolutions of id 5 wait for the cloud at the same time, and both are answered. -/
theorem one_server_per_id_twice :
    let es := [Ev.getStream 5 true, .getStream 5 false, .update 0, .update 1, .update 0, .update 1, .servers 1 [⟨5, []⟩]]
    ∃ s t, exec step (init []) es = some s ∧ exec step s [.servers 0 [⟨5, []⟩]] = some t ∧
      t.mgr.streams.map (·.server) = [0, 0] ∧ s.mgr.cloud.count 0 = 1 ∧ s.mgr.added.filter (·.2 == 0) = [(5, 0)] ∧
      ∀ i, s.mgr.registry i = some 0 ↔ i = 5 := by
  intro es
  refine ⟨_, _, rfl, rfl, rfl, ?_⟩
  have hm : Meets step Answering (init []) (es ++ [.servers 0 [⟨5, []⟩]]) := by decide
  obtain ⟨h, -⟩ := one_server_per_id hm rfl rfl
  obtain ⟨-, -, hc, ha, hr⟩ := h 0 ⟨5, []⟩ (Nat.zero_le 0) rfl (by decide)
  exact ⟨hc, ha, fun i => (hr i).trans ⟨fun hi => hi.1, fun hi => ⟨hi, by decide⟩⟩⟩

end Callers

end AetherGateway.Streams
