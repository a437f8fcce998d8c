/-
  AetherGateway.Streams.Callers — the stream manager used by any number of callers.

  A caller asks for a stream (`getStream`, with the cache or without, or `getStreamTo`
  endpoints) and holds it from the moment its action reports the result until it drops
  it. In between the registry runs the pending actions in any order (`update`) and the
  cloud answers, fails or stops their requests. Call `i` is served by action `i`. A
  stream is alive while an action or a caller holds it.

  Proved:
  - `inv`: in every run each pending action serves its call, and each result was made
    for the call it was reported to.
  - `one_stream_per_server`: when no cached call starts a resolution of an id while
    another one of that id can still come to a result, all live streams obtained for
    one id are one stream, throughout the run.
  - `two_streams_for_one_server`: without that, two clients asking for one id before
    the first resolution has run get two live streams for it.
-/

import AetherGateway.Streams.ManagerProofs

namespace AetherGateway.Streams.Callers

open AetherGateway.Runs

structure Call where
  server : ServeKind
  cache : Bool
  deriving DecidableEq, Repr

structure St where
  mgr : Manager
  calls : List Call
  /-- The actions that reported a result, with the stream they exposed. -/
  results : List (Nat × Option Nat)
  /-- The streams the callers hold, by action. -/
  held : List (Nat × Nat)

def init (known : List Server) : St := ⟨.init known, [], [], []⟩

def alive (s : St) (x : Nat) : Bool := s.mgr.heldByAction x || s.held.any (·.2 == x)

inductive Ev where
  | getStream (id : ServerId) (cache : Bool)
  | getStreamTo (e : ServerEndpoints)
  | update (a : Nat)
  | servers (a : Nat) (sds : List ServerDescriptor)
  | serversError (a : Nat)
  | serversStop (a : Nat)
  | drop (a : Nat)
  deriving Repr

/-- The turn of a pending action; its caller takes the stream of a result. -/
def update (s : St) (a : Nat) (act : StreamGetAction) : St :=
  match s.mgr.runAction a act with
  | (mgr, .result) =>
    { s with mgr := mgr, results := s.results ++ [(a, act.stream)], held := s.held ++ act.stream.toList.map (a, ·) }
  | (mgr, _) => { s with mgr := mgr }

def step (s : St) : Ev → Option St
  | .getStream id cache =>
    some { s with mgr := (s.mgr.getStream (alive s) id cache).1, calls := s.calls ++ [⟨.id id, cache⟩] }
  | .getStreamTo e => some { s with mgr := (s.mgr.getStreamTo e).1, calls := s.calls ++ [⟨.endpoints e, false⟩] }
  | .update a => (s.mgr.action? a).map (update s a)
  | .servers a sds => (s.mgr.onServers a sds).map fun mgr => { s with mgr := mgr }
  | .serversError a => (s.mgr.onServersError a).map fun mgr => { s with mgr := mgr }
  | .serversStop a => (s.mgr.onServersStop a).map fun mgr => { s with mgr := mgr }
  | .drop a => some { s with held := s.held.filter (·.1 != a) }

/-! ## The invariant of every run -/

structure Inv (s : St) : Prop where
  mgr : s.mgr.Inv
  length : s.calls.length = s.mgr.actions.length
  serves : ∀ a act, s.mgr.action? a = some act → ∃ c, s.calls[a]? = some c ∧ s.mgr.Serves c.server act
  results : ∀ a o, (a, o) ∈ s.results → ∃ x c, o = some x ∧ s.calls[a]? = some c ∧ s.mgr.madeFor x = some c.server

theorem init_inv (known : List Server) : Inv (init known) :=
  ⟨Manager.init_inv known, rfl, fun a act h => by simp [init, Manager.init, Manager.action?] at h,
    fun a o h => by cases h⟩

/-- A call keeps the invariant: the manager pushes one action, which serves the call. -/
theorem Inv.call {s : St} (h : Inv s) {mgr : Manager} {act : StreamGetAction} (c : Call) (hm : mgr.Inv)
    (hlen : mgr.actions.length = s.mgr.actions.length + 1)
    (hmade : ∀ x f, s.mgr.madeFor x = some f → mgr.madeFor x = some f)
    (hact : ∀ b, mgr.action? b = if b = s.mgr.actions.length then some act else s.mgr.action? b)
    (hserves : mgr.Serves c.server act) : Inv { s with mgr := mgr, calls := s.calls ++ [c] } := by
  refine ⟨hm, by simp [hlen, h.length], fun a act' ha => ?_, fun a o ho => ?_⟩
  · simp only [hact] at ha
    split at ha
    · next e =>
      cases ha
      exact ⟨c, by simp [e, h.length], hserves⟩
    · obtain ⟨c', hc, hs⟩ := h.serves a act' ha
      exact ⟨c', by simp [List.getElem?_append_left (List.getElem?_eq_some_iff.mp hc).1, hc], hs.mono hmade⟩
  · obtain ⟨x, c', hx, hc, hf⟩ := h.results a o ho
    exact ⟨x, c', hx, by simp [List.getElem?_append_left (List.getElem?_eq_some_iff.mp hc).1, hc], hmade x _ hf⟩

/-- An action's turn keeps it. -/
theorem Inv.turn {s : St} (h : Inv s) {a : Nat} {act : StreamGetAction} {mgr : Manager}
    (ha : s.mgr.action? a = some act) (hm : mgr.Inv) (ht : s.mgr.Turn a act mgr) : Inv { s with mgr := mgr } := by
  refine ⟨hm, by rw [h.length, ← ht.length], fun b act' hb => ?_, fun b o hb => ?_⟩
  · obtain ⟨act₀, h₀, hs⟩ := ht.serves ha hb
    obtain ⟨c, hc, hc'⟩ := h.serves b act₀ h₀
    exact ⟨c, hc, hs c.server hc'⟩
  · obtain ⟨x, c, hx, hc, hf⟩ := h.results b o hb
    exact ⟨x, c, hx, hc, ht.made x _ hf⟩

def Ev.call? : Ev → Option Call
  | .getStream id cache => some ⟨.id id, cache⟩
  | .getStreamTo e => some ⟨.endpoints e, false⟩
  | _ => none

def TurnOf (s : St) (m : Manager) (a : Nat) : Ev → Prop
  | .update b =>
    b = a ∧ ∃ act, s.mgr.action? a = some act ∧ (s.mgr.runAction a act).2 ≠ .result ∧ m = (s.mgr.runAction a act).1
  | .servers b sds => b = a ∧ s.mgr.onServers a sds = some m
  | .serversError b => b = a ∧ s.mgr.onServersError a = some m
  | .serversStop b => b = a ∧ s.mgr.onServersStop a = some m
  | _ => False

def Hit (s : St) (x : Nat) : Ev → Prop
  | .getStream id cache => cache = true ∧ s.mgr.streamCache id = some x ∧ alive s x = true
  | _ => False

inductive Moved (s : St) : Ev → St → Prop where
  /-- A call pushes an action; a stream that it holds was a hit or is new. -/
  | call {e : Ev} {mgr : Manager} {act : StreamGetAction} {c : Call} (hc : e.call? = some c) (hm : mgr.Inv)
      (hact : ∀ b, mgr.action? b = if b = s.mgr.actions.length then some act else s.mgr.action? b)
      (hlen : mgr.actions.length = s.mgr.actions.length + 1) (hserves : mgr.Serves c.server act)
      (hmade : ∀ x f, s.mgr.madeFor x = some f → mgr.madeFor x = some f)
      (hcache : ∀ i x, s.mgr.streamCache i = some x → alive s x = true → mgr.streamCache i = some x)
      (hhold : ∀ x, act.stream = some x → Hit s x e ∨ s.mgr.streams.length ≤ x) :
      Moved s e { s with mgr := mgr, calls := s.calls ++ [c] }
  | turn {e : Ev} {a : Nat} {act : StreamGetAction} {mgr : Manager} (hs : TurnOf s mgr a e)
      (ha : s.mgr.action? a = some act) (hm : mgr.Inv) (ht : s.mgr.Turn a act mgr)
      (hcache : ∀ i x, s.mgr.streamCache i = some x → mgr.streamCache i = some x) : Moved s e { s with mgr := mgr }
  | result {a x : Nat} {act : StreamGetAction} (ha : s.mgr.action? a = some act)
      (hr : (s.mgr.runAction a act).2 = .result) (hx : act.stream = some x) :
      Moved s (.update a) { s with
        mgr := s.mgr.endAction a
        results := s.results ++ [(a, some x)]
        held := s.held ++ [(a, x)] }
  | drop (a : Nat) : Moved s (.drop a) { s with held := s.held.filter (·.1 != a) }

theorem cache_resolve {m : Manager} (a : Nat) (r : RequestServerStreamGetAction) (v : Nat) {i : ServerId} {x : Nat}
    (h : m.streamCache i = some x) : (m.resolve a r v).streamCache i = some x := by
  rw [Manager.resolve_streamCache, h]
  split
  · rfl
  · rfl

theorem cache_runAction {m : Manager} (a : Nat) (act : StreamGetAction) {i : ServerId} {x : Nat}
    (h : m.streamCache i = some x) : (m.runAction a act).1.streamCache i = some x := by
  cases act with
  | existing o => exact h
  | request r =>
    rcases Manager.runAction_request m a r with ⟨-, e⟩ | ⟨-, v, -, e⟩ | ⟨-, -, e⟩ | ⟨-, e⟩ | ⟨-, e⟩ | ⟨-, e⟩ <;> rw [e]
    · exact h
    · exact cache_resolve a r v h
    · exact h
    · exact h
    · exact h
    · exact h

theorem getStream_moved {s : St} (h : Inv s) (id : ServerId) (cache : Bool) :
    Moved s (.getStream id cache)
      { s with mgr := (s.mgr.getStream (alive s) id cache).1, calls := s.calls ++ [⟨.id id, cache⟩] } := by
  have hm := h.mgr.getStream (alive s) id cache
  have live : ∀ i x, s.mgr.streamCache i = some x → alive s x = true →
      (s.mgr.openCache (alive s)).streamCache i = some x := by
    intro i x hx ha
    simp [Manager.openCache, hx, ha]
  rcases Manager.getStream_cases s.mgr (alive s) id cache with ⟨rfl, x, hx, hl, e⟩ | ⟨-, -, e⟩ | ⟨-, e⟩ <;>
    rw [e] at hm ⊢
  · refine .call rfl hm Manager.action?_push (by simp [Manager.pushAction, Manager.openCache])
      ⟨x, rfl, h.mgr.cached id x hx⟩ (fun _ _ hf => hf) live fun y hy => Or.inl ?_
    cases hy
    exact ⟨rfl, hx, hl⟩
  · exact .call rfl hm Manager.action?_push (by simp [Manager.pushAction, Manager.openCache]) rfl
      (fun _ _ hf => hf) live fun y hy => by cases hy
  · exact .call rfl hm Manager.action?_push (by simp [Manager.pushAction]) rfl
      (fun _ _ hf => hf) (fun _ _ hx _ => hx) fun y hy => by cases hy

theorem update_moved {s : St} (h : Inv s) {a : Nat} {act : StreamGetAction} (ha : s.mgr.action? a = some act) :
    Moved s (.update a) (update s a act) := by
  unfold Callers.update
  split
  · next mgr e =>
    obtain ⟨x, hx⟩ := Manager.result_stream (h.mgr.acts a act ha) (by rw [e])
    obtain rfl : s.mgr.endAction a = mgr := by rw [← Manager.runAction_result (by rw [e]), e]
    rw [hx]
    exact .result ha (by rw [e]) hx
  · next mgr st hst e =>
    obtain rfl : (s.mgr.runAction a act).1 = mgr := by rw [e]
    exact .turn ⟨rfl, act, ha, by rw [e]; exact fun he => hst (by rw [← he]), rfl⟩ ha (h.mgr.runAction ha)
      (Manager.turn_runAction ha) fun _ _ => cache_runAction a act

theorem step_moved {s t : St} {e : Ev} (h : Inv s) (hs : step s e = some t) : Moved s e t := by
  cases e with
  | getStream id cache => cases hs; exact getStream_moved h id cache
  | getStreamTo e =>
    cases hs
    have hcache := Manager.getStreamTo_streamCache s.mgr e
    refine .call rfl (h.mgr.getStreamTo e) (Manager.getStreamTo_action? s.mgr e) ?_ ⟨_, rfl, ?_⟩ (fun x f hf => ?_)
      (fun i x hx _ => by rw [hcache]; exact hx) (fun x hx => Or.inr ?_)
    · simp [Manager.getStreamTo, Manager.pushAction, Manager.makeStream]
    · rw [Manager.getStreamTo_madeFor, if_pos rfl]
    · rw [Manager.getStreamTo_madeFor, if_neg (Manager.madeFor_ne_length hf)]; exact hf
    · cases hx
      exact Nat.le_refl _
  | update a =>
    obtain ⟨act, ha, rfl⟩ := Option.map_eq_some_iff.mp hs
    exact update_moved h ha
  | servers a sds =>
    obtain ⟨mgr, hm, rfl⟩ := Option.map_eq_some_iff.mp hs
    obtain ⟨r, hr, ht⟩ := Manager.turn_onServers hm
    refine .turn ⟨rfl, hm⟩ (Manager.requesting_some hr).1 (h.mgr.onServers hm) ht fun i x hx => ?_
    obtain ⟨sd, rest, r', -, -, rfl⟩ := Manager.onServers_some hm
    exact cache_resolve a _ _ (by rw [Manager.buildServer_streamCache]; exact hx)
  | serversError a =>
    obtain ⟨mgr, hm, rfl⟩ := Option.map_eq_some_iff.mp hs
    obtain ⟨r, hr, ht⟩ := Manager.turn_onServersError hm
    refine .turn ⟨rfl, hm⟩ (Manager.requesting_some hr).1 (h.mgr.onServersError hm) ht fun i x hx => ?_
    obtain ⟨r', -, rfl⟩ := Option.map_eq_some_iff.mp hm
    exact hx
  | serversStop a =>
    obtain ⟨mgr, hm, rfl⟩ := Option.map_eq_some_iff.mp hs
    obtain ⟨r, hr, ht⟩ := Manager.turn_onServersStop hm
    refine .turn ⟨rfl, hm⟩ (Manager.requesting_some hr).1 (h.mgr.onServersStop hm) ht fun i x hx => ?_
    obtain ⟨r', -, rfl⟩ := Option.map_eq_some_iff.mp hm
    exact hx
  | drop a => cases hs; exact .drop a

theorem Inv.moved {s t : St} {e : Ev} (h : Inv s) (hm : Moved s e t) : Inv t := by
  cases hm with
  | @call e mgr act c hc hm hact hlen hserves hmade _ _ => exact h.call c hm hlen hmade hact hserves
  | turn _ ha hm ht _ => exact h.turn ha hm ht
  | @result a x act ha _ hx =>
    obtain ⟨c, hc, hs⟩ := h.serves a act ha
    have ht := h.turn ha (h.mgr.endAction ha) (Manager.turn_endAction ha)
    refine ⟨ht.mgr, ht.length, ht.serves, fun b o hb => ?_⟩
    rcases List.mem_append.mp hb with hb | hb
    · exact ht.results b o hb
    · cases List.mem_singleton.mp hb
      exact ⟨x, c, rfl, hc, hs.stream (h.mgr.acts a act ha) hx⟩
  | drop a => exact ⟨h.mgr, h.length, h.serves, h.results⟩

theorem step_inv {s t : St} {e : Ev} (h : Inv s) (hs : step s e = some t) : Inv t := h.moved (step_moved h hs)

theorem inv {known : List Server} {es : List Ev} {s : St} (h : exec step (init known) es = some s) : Inv s :=
  invariant (fun _ _ _ hi hs => step_inv hi hs) (init_inv known) h

/-! ## One stream for one server -/

/-- Action `a` resolves `id` and can still come to a result. -/
def Resolving (m : Manager) (id : ServerId) (a : Nat) : Prop :=
  ∃ r, m.action? a = some (.request r) ∧ r.serverId = id ∧ r.stream = none ∧
    (StreamGetAction.request r).canResult = true

instance (m : Manager) (id : ServerId) (a : Nat) : Decidable (Resolving m id a) :=
  match h : m.action? a with
  | some (.request r) =>
    decidable_of_iff (r.serverId = id ∧ r.stream = none ∧ (StreamGetAction.request r).canResult = true)
      ⟨fun hr => ⟨r, h, hr⟩, fun ⟨_, hq, hr⟩ => by cases h.symm.trans hq; exact hr⟩
  | some (.existing _) => .isFalse fun ⟨_, hq, _⟩ => by cases h.symm.trans hq
  | none => .isFalse fun ⟨_, hq, _⟩ => by cases h.symm.trans hq

def Cached : Ev → Prop
  | .getStream _ cache => cache = true
  | _ => True

instance : (e : Ev) → Decidable (Cached e)
  | .getStream _ cache => inferInstanceAs (Decidable (cache = true))
  | .getStreamTo _ | .update _ | .servers _ _ | .serversError _ | .serversStop _ | .drop _ => .isTrue trivial

/-- A call starts a resolution only when no other one of its id can still come to a
    result. -/
def OneAtATime (s : St) : Ev → Prop
  | .getStream id _ =>
    (s.mgr.openCache (alive s)).streamCache id = none → ∀ a < s.mgr.actions.length, ¬ Resolving s.mgr id a
  | _ => True

instance (s : St) : (e : Ev) → Decidable (OneAtATime s e)
  | .getStream _ _ => inferInstanceAs (Decidable (_ → ∀ a < _, ¬ Resolving _ _ a))
  | .getStreamTo _ | .update _ | .servers _ _ | .serversError _ | .serversStop _ | .drop _ => .isTrue trivial

/-- All live streams that cached calls for one id obtained are one stream. -/
def Shared (s : St) : Prop :=
  ∀ id a b x y, (a, some x) ∈ s.results → (b, some y) ∈ s.results → s.calls[a]? = some ⟨.id id, true⟩ →
    s.calls[b]? = some ⟨.id id, true⟩ → alive s x = true → alive s y = true → x = y

theorem alive_iff {s : St} {x : Nat} : alive s x = true ↔ s.mgr.heldByAction x = true ∨ ∃ a, (a, x) ∈ s.held := by
  unfold alive
  rw [Bool.or_eq_true, List.any_eq_true]
  refine or_congr Iff.rfl ⟨fun ⟨p, hp, e⟩ => ⟨p.1, ?_⟩, fun ⟨a, h⟩ => ⟨(a, x), h, by simp⟩⟩
  obtain rfl : p.2 = x := by simpa using e
  exact hp

structure Single (s : St) : Prop where
  inv : Inv s
  one : ∀ id a b, Resolving s.mgr id a → Resolving s.mgr id b → a = b
  fresh : ∀ id a, Resolving s.mgr id a → s.mgr.streamCache id = none
  /-- A live stream made for an id is the one in the cache. -/
  cached : ∀ x id, alive s x = true → s.mgr.madeFor x = some (.id id) → s.mgr.streamCache id = some x

theorem Single.shared {s : St} (h : Single s) : Shared s := by
  intro id a b x y hx hy ha hb hlx hly
  have made : ∀ a x, (a, some x) ∈ s.results → s.calls[a]? = some ⟨.id id, true⟩ →
      s.mgr.madeFor x = some (.id id) := by
    intro a x hx ha
    obtain ⟨x', c, hx', hc, hf⟩ := h.inv.results a _ hx
    cases hx'
    cases ha.symm.trans hc
    exact hf
  have hcx := h.cached x id hlx (made a x hx ha)
  have hcy := h.cached y id hly (made b y hy hb)
  exact Option.some.inj (hcx.symm.trans hcy)

/-- A step that makes no stream and starts no resolution keeps it. -/
theorem Single.shrink {s t : St} (h : Single s) (hi : Inv t)
    (hres : ∀ id a, Resolving t.mgr id a → Resolving s.mgr id a) (hc : t.mgr.streamCache = s.mgr.streamCache)
    (hs : t.mgr.streams = s.mgr.streams) (hl : ∀ x, alive t x = true → alive s x = true) : Single t := by
  refine ⟨hi, ?_, ?_, ?_⟩
  · intro id a b ha hb; exact h.one id a b (hres id a ha) (hres id b hb)
  · intro id a ha; rw [hc]; exact h.fresh id a (hres id a ha)
  · intro x id hx hm
    rw [Manager.madeFor_congr hs] at hm
    rw [hc]; exact h.cached x id (hl x hx) hm

/-- The resolution of an id makes its stream: no live one was there, and the new one is
    cached. -/
theorem Single.resolve {s : St} (h : Single s) {m : Manager} {a server : Nat} {r r' : RequestServerStreamGetAction}
    (hst : m.streams = s.mgr.streams) (hca : m.streamCache = s.mgr.streamCache) (hac : m.actions = s.mgr.actions)
    (ha : s.mgr.action? a = some (.request r)) (hr : Resolving s.mgr r.serverId a) (hid : r'.serverId = r.serverId)
    (hi : Inv { s with mgr := m.resolve a r' server }) : Single { s with mgr := m.resolve a r' server } := by
  have ham : m.action? a = some (.request r) := by rw [Manager.action?_congr hac]; exact ha
  have hnone : s.mgr.streamCache r.serverId = none := h.fresh _ a hr
  -- the actions that still resolve are others, and of other ids
  have hold : ∀ i b, Resolving (m.resolve a r' server) i b → Resolving s.mgr i b ∧ i ≠ r.serverId := by
    intro i b ⟨q, hq, hqi, hqs, hqc⟩
    rw [Manager.resolve_action? m a r' server ham, Manager.action?_congr hac] at hq
    split at hq
    · cases hq; cases hqs
    · next hne =>
      have hb : Resolving s.mgr i b := ⟨q, hq, hqi, hqs, hqc⟩
      refine ⟨hb, fun e => hne ?_⟩
      subst e
      exact h.one _ b a hb hr
  have hcache : ∀ i, i ≠ r.serverId → (m.resolve a r' server).streamCache i = s.mgr.streamCache i := by
    intro i hne
    rw [Manager.resolve_streamCache, hid, if_neg hne, hca]
  refine ⟨hi, ?_, ?_, ?_⟩
  · intro i b c hb hc; exact h.one i b c (hold i b hb).1 (hold i c hc).1
  · intro i b hb
    obtain ⟨hb, hne⟩ := hold i b hb
    rw [hcache i hne]; exact h.fresh i b hb
  · intro x i hx hm
    simp only [Manager.resolve_madeFor, Manager.madeFor_congr hst, hid, hst] at hm
    split at hm
    · next e =>
      cases hm
      show (m.resolve a r' server).streamCache r.serverId = some x
      rw [Manager.resolve_streamCache, hid, if_pos rfl, hca, hnone, hst, e]; rfl
    · next hne =>
      have hlive : alive s x = true := by
        rcases alive_iff.mp hx with hx | hx
        · rcases Manager.resolve_heldByAction m a r' server ham hx with e | hx
          · exact absurd (by rw [e, hst]) hne
          · refine alive_iff.mpr (Or.inl ?_)
            unfold Manager.heldByAction at hx ⊢
            rw [← hac]; exact hx
        · exact alive_iff.mpr (Or.inr hx)
      have hcx := h.cached x i hlive hm
      show (m.resolve a r' server).streamCache i = some x
      rw [hcache i fun e => by rw [e, hnone] at hcx; cases hcx]
      exact hcx

/-- An action's turn that changes its phase only, or ends it, keeps it. -/
theorem Single.setAction {s : St} (h : Single s) {a : Nat} {r new : RequestServerStreamGetAction}
    (ha : s.mgr.action? a = some (.request r)) (hid : new.serverId = r.serverId) (hst : new.stream = r.stream)
    (hres : (StreamGetAction.request new).canResult = true → (StreamGetAction.request r).canResult = true)
    (hi : Inv { s with mgr := s.mgr.setAction a (.request new) }) :
    Single { s with mgr := s.mgr.setAction a (.request new) } := by
  refine h.shrink hi ?_ rfl rfl ?_
  · intro id b ⟨q, hq, hqi, hqs, hqc⟩
    rw [Manager.action?_setAction ha] at hq
    split at hq
    · next e =>
      cases hq
      rw [e]; exact ⟨r, ha, by rw [← hid]; exact hqi, by rw [← hst]; exact hqs, hres hqc⟩
    · exact ⟨q, hq, hqi, hqs, hqc⟩
  · intro x hx
    rcases alive_iff.mp hx with hx | hx
    · have hn : (StreamGetAction.request new).stream = (StreamGetAction.request r).stream := hst
      exact alive_iff.mpr (Or.inl (Manager.heldByAction_setAction ha hn hx))
    · exact alive_iff.mpr (Or.inr hx)

theorem resolving_endAction {m : Manager} {a b : Nat} {act : StreamGetAction} {id : ServerId}
    (ha : m.action? a = some act) (h : Resolving (m.endAction a) id b) : Resolving m id b := by
  obtain ⟨q, hq, hr⟩ := h
  rw [Manager.action?_endAction ha] at hq
  split at hq
  · cases hq
  · exact ⟨q, hq, hr⟩

/-- The action ends and its caller takes the stream it held, if any. -/
theorem Single.endAction {s : St} (h : Single s) {a : Nat} {act : StreamGetAction} {results : List (Nat × Option Nat)}
    {held : List (Nat × Nat)} (ha : s.mgr.action? a = some act)
    (hh : ∀ b x, (b, x) ∈ held → (b, x) ∈ s.held ∨ act.stream = some x)
    (hi : Inv { s with mgr := s.mgr.endAction a, results := results, held := held }) :
    Single { s with mgr := s.mgr.endAction a, results := results, held := held } := by
  refine h.shrink hi (fun id b hb => resolving_endAction ha hb) rfl rfl ?_
  intro x hx
  rcases alive_iff.mp hx with hx | ⟨b, hb⟩
  · exact alive_iff.mpr (Or.inl (Manager.heldByAction_endAction ha hx))
  · rcases hh b x hb with hb | hb
    · exact alive_iff.mpr (Or.inr ⟨b, hb⟩)
    · exact alive_iff.mpr (Or.inl (Manager.heldByAction_iff.mpr ⟨a, act, ha, hb⟩))

/-- A new action keeps no other stream alive than its own. -/
theorem alive_pushAction {s : St} {act : StreamGetAction} {calls : List Call} {x : Nat}
    (hx : alive { s with mgr := ((s.mgr.openCache (alive s)).pushAction act).1, calls := calls } x = true) :
    act.stream = some x ∨ alive s x = true := by
  rcases alive_iff.mp hx with hx | hx
  · exact (Manager.heldByAction_pushAction hx).imp id fun hx => alive_iff.mpr (Or.inl hx)
  · exact Or.inr (alive_iff.mpr (Or.inr hx))

/-- A cached call: a hit shares the live stream, a miss starts the only resolution. -/
theorem Single.getStream {s : St} (h : Single s) {id : ServerId} (hc : OneAtATime s (.getStream id true))
    (hi : Inv { s with mgr := (s.mgr.getStream (alive s) id true).1, calls := s.calls ++ [⟨.id id, true⟩] }) :
    Single { s with mgr := (s.mgr.getStream (alive s) id true).1, calls := s.calls ++ [⟨.id id, true⟩] } := by
  have kept : ∀ i, s.mgr.streamCache i = none → (s.mgr.openCache (alive s)).streamCache i = none := by
    intro i hn
    simp [Manager.openCache, hn]
  have live : ∀ i x, alive s x = true → s.mgr.streamCache i = some x →
      (s.mgr.openCache (alive s)).streamCache i = some x := by
    intro i x hx hcx
    simp [Manager.openCache, hcx, hx]
  rcases Manager.getStream_cases s.mgr (alive s) id true with ⟨-, x₀, hx₀, hl₀, e⟩ | ⟨-, hmiss, e⟩ | ⟨hf, -⟩
  · rw [e] at hi ⊢
    have hres : ∀ i b, Resolving ((s.mgr.openCache (alive s)).pushAction (.existing (some x₀))).1 i b →
        Resolving s.mgr i b := by
      intro i b hb
      obtain ⟨q, hq, hr⟩ := hb
      rw [Manager.action?_push] at hq
      split at hq
      · cases hq
      · exact ⟨q, hq, hr⟩
    refine ⟨hi, ?_, ?_, ?_⟩
    · intro i b c hb hc; exact h.one i b c (hres i b hb) (hres i c hc)
    · intro i b hb; exact kept i (h.fresh i b (hres i b hb))
    · intro x i hx hm
      have hx : alive s x = true := by
        rcases alive_pushAction hx with hx | hx
        · cases hx; exact hl₀
        · exact hx
      exact live i x hx (h.cached x i hx hm)
  · rw [e] at hi ⊢
    have hres : ∀ i b, Resolving ((s.mgr.openCache (alive s)).pushAction (.request (.make id))).1 i b →
        (b = s.mgr.actions.length ∧ i = id) ∨ (Resolving s.mgr i b ∧ i ≠ id) := by
      intro i b hb
      obtain ⟨q, hq, hqi, hr⟩ := hb
      rw [Manager.action?_push] at hq
      split at hq
      · next e => cases hq; exact Or.inl ⟨e, hqi.symm⟩
      · refine Or.inr ⟨⟨q, hq, hqi, hr⟩, fun e => ?_⟩
        subst e
        exact hc hmiss b (Manager.action?_lt hq) ⟨q, hq, hqi, hr⟩
    refine ⟨hi, ?_, ?_, ?_⟩
    · intro i b c hb hc
      rcases hres i b hb with ⟨rfl, ei⟩ | ⟨hb, nb⟩ <;> rcases hres i c hc with ⟨rfl, ei'⟩ | ⟨hc, nc⟩
      · rfl
      · exact absurd ei nc
      · exact absurd ei' nb
      · exact h.one i b c hb hc
    · intro i b hb
      rcases hres i b hb with ⟨-, rfl⟩ | ⟨hb, -⟩
      · exact hmiss
      · exact kept i (h.fresh i b hb)
    · intro x i hx hm
      have hx : alive s x = true := (alive_pushAction hx).resolve_left fun hx => by cases hx
      exact live i x hx (h.cached x i hx hm)
  · cases hf

/-- A stream to endpoints is made for no id. -/
theorem Single.getStreamTo {s : St} (h : Single s) {e : ServerEndpoints}
    (hi : Inv { s with mgr := (s.mgr.getStreamTo e).1, calls := s.calls ++ [⟨.endpoints e, false⟩] }) :
    Single { s with mgr := (s.mgr.getStreamTo e).1, calls := s.calls ++ [⟨.endpoints e, false⟩] } := by
  have hact := Manager.getStreamTo_action? s.mgr e
  have hres : ∀ i b, Resolving (s.mgr.getStreamTo e).1 i b → Resolving s.mgr i b := by
    intro i b ⟨q, hq, hr⟩
    rw [hact] at hq
    split at hq
    · cases hq
    · exact ⟨q, hq, hr⟩
  have hcache := Manager.getStreamTo_streamCache s.mgr e
  refine ⟨hi, ?_, ?_, ?_⟩
  · intro i b c hb hc; exact h.one i b c (hres i b hb) (hres i c hc)
  · intro i b hb
    show (s.mgr.getStreamTo e).1.streamCache i = none
    rw [hcache]; exact h.fresh i b (hres i b hb)
  · intro x i hx hm
    simp only [Manager.getStreamTo_madeFor] at hm
    split at hm
    · cases hm
    · next hne =>
      show (s.mgr.getStreamTo e).1.streamCache i = some x
      rw [hcache]
      refine h.cached x i ?_ hm
      rcases alive_iff.mp hx with hx | hx
      · obtain ⟨b, act, hb, hs⟩ := Manager.heldByAction_iff.mp hx
        rw [hact] at hb
        split at hb
        · cases hb; exact absurd (Option.some.inj hs).symm hne
        · exact alive_iff.mpr (Or.inl (Manager.heldByAction_iff.mpr ⟨b, act, hb, hs⟩))
      · exact alive_iff.mpr (Or.inr hx)

theorem Single.update {s : St} (h : Single s) {a : Nat} {act : StreamGetAction}
    (ha : s.mgr.action? a = some act) : Single (update s a act) := by
  have hi := h.inv.moved (update_moved h.inv ha)
  unfold Callers.update at hi ⊢
  cases act with
  | existing o =>
    refine h.endAction ha (fun b x hb => ?_) hi
    rcases List.mem_append.mp hb with hb | hb
    · exact Or.inl hb
    · obtain ⟨y, hy, e⟩ := List.mem_map.mp hb
      cases e
      exact Or.inr (Option.mem_toList.mp hy)
  | request r =>
    obtain ⟨hp, -⟩ := h.inv.mgr.acts a _ ha
    rcases Manager.runAction_request s.mgr a r with
      ⟨-, e⟩ | ⟨hst, server, -, e⟩ | ⟨hst, -, e⟩ | ⟨hst, e⟩ | ⟨-, e⟩ | ⟨-, e⟩ <;> rw [e] at hi ⊢
    · exact h
    · refine h.resolve rfl rfl rfl ha ⟨r, ha, rfl, ?_, ?_⟩ rfl hi
      · exact Manager.phaseOk_stream hp (by rw [hst]; decide)
      · rw [StreamGetAction.canResult, hst]; rfl
    · exact h.setAction ha rfl rfl (fun _ => by rw [StreamGetAction.canResult, hst]; rfl) hi
    · exact h.setAction ha rfl rfl (fun _ => by rw [StreamGetAction.canResult, hst]; rfl) hi
    · refine h.endAction ha (fun b x hb => ?_) hi
      rcases List.mem_append.mp hb with hb | hb
      · exact Or.inl hb
      · obtain ⟨y, hy, e⟩ := List.mem_map.mp hb
        cases e
        exact Or.inr (Option.mem_toList.mp hy)
    · exact h.endAction ha (fun b x hb => Or.inl hb) hi

theorem step_single {s t : St} {e : Ev} (h : Single s) (hc : Cached e ∧ OneAtATime s e) (hs : step s e = some t) :
    Single t := by
  have hi := step_inv h.inv hs
  cases e with
  | getStream id cache =>
    obtain ⟨hca, hone⟩ := hc
    cases hca
    cases hs
    exact h.getStream hone hi
  | getStreamTo e => cases hs; exact h.getStreamTo hi
  | update a =>
    obtain ⟨act, ha, rfl⟩ := Option.map_eq_some_iff.mp hs
    exact h.update ha
  | servers a sds =>
    obtain ⟨mgr, hm, rfl⟩ := Option.map_eq_some_iff.mp hs
    obtain ⟨sd, rest, r, -, hr, rfl⟩ := Manager.onServers_some hm
    obtain ⟨ha, hg⟩ := Manager.requesting_some hr
    obtain ⟨hst, ho⟩ := h.inv.mgr.waiting hr
    refine h.resolve (Manager.buildServer_streams _ _) (Manager.buildServer_streamCache _ _)
      (Manager.buildServer_actions _ _) ha ⟨r, ha, rfl, ho, ?_⟩ rfl hi
    rw [StreamGetAction.canResult, hst, hg]; rfl
  | serversError a =>
    obtain ⟨mgr, hm, rfl⟩ := Option.map_eq_some_iff.mp hs
    obtain ⟨r, hr, rfl⟩ := Option.map_eq_some_iff.mp hm
    exact h.setAction (Manager.requesting_some hr).1 rfl rfl (fun hcr => by cases hcr) hi
  | serversStop a =>
    obtain ⟨mgr, hm, rfl⟩ := Option.map_eq_some_iff.mp hs
    obtain ⟨r, hr, rfl⟩ := Option.map_eq_some_iff.mp hm
    obtain ⟨hst, -⟩ := h.inv.mgr.waiting hr
    refine h.setAction (Manager.requesting_some hr).1 rfl rfl (fun hcr => ?_) hi
    rw [StreamGetAction.canResult] at hcr
    simp only [hst] at hcr
    cases hcr
  | drop a =>
    cases hs
    refine h.shrink hi (fun _ _ hb => hb) rfl rfl fun x hx => ?_
    rcases alive_iff.mp hx with hx | ⟨b, hb⟩
    · exact alive_iff.mpr (Or.inl hx)
    · exact alive_iff.mpr (Or.inr ⟨b, (List.mem_filter.mp hb).1⟩)

theorem init_single (known : List Server) : Single (init known) := by
  have hno : ∀ id a, ¬ Resolving (init known).mgr id a := by
    intro id a ⟨q, hq, _⟩
    simp [init, Manager.init, Manager.action?] at hq
  refine ⟨init_inv known, fun id a b ha => absurd ha (hno id a), fun id a ha => absurd ha (hno id a), ?_⟩
  intro x id hx
  simp [alive, init, Manager.init, Manager.heldByAction] at hx

/-- One shared stream per server, as long as no cached call starts a second resolution
    of an id while one is under way. -/
theorem one_stream_per_server {known : List Server} {es : List Ev} (hc : ∀ e ∈ es, Cached e)
    (hm : Meets step OneAtATime (init known) es) : Always step Shared (init known) es :=
  always_of_meets (fun _ h => h.shared) (fun _ _ _ h hc hs => step_single h hc hs) (init_single known)
    ((meets_of_all fun _ e he => hc e he).and hm)

/-- Two callers of id 5, the second a cache hit. -/
theorem one_stream_per_server_hit :
    let es := [Ev.getStream 5 true, .update 0, .update 0, .servers 0 [⟨5, []⟩], .update 0, .getStream 5 true, .update 1]
    Always step Shared (init []) es :=
  one_stream_per_server (by decide) (by decide)

/-- Two callers ask for id 5 before the first resolution has run: each resolution makes
    its own stream, and both are alive. -/
theorem two_streams_for_one_server :
    let es := [Ev.getStream 5 true, .getStream 5 true, .update 0, .update 1, .update 0, .update 1]
    (∀ e ∈ es, Cached e) ∧ ¬ Always step Shared (init [⟨5, []⟩]) es := by
  intro es
  refine ⟨by decide, fun h => ?_⟩
  have hlast := always_exec h rfl
  have : 0 = 1 := hlast 5 0 1 0 1 (by decide) (by decide) (by decide) (by decide) (by decide) (by decide)
  cases this

end AetherGateway.Streams.Callers
