/-
  AetherGateway.Port.Refinement — a local port is a relay (see `AetherGateway.Relay` and
  `AetherGateway.Port.LocalPort`).

  The entries of the store are the conversations, the server streams the channels. Actions,
  the cloud's answers, the cache, the buffers' ties and the subscriptions are nothing that
  a client or a server sees.
  - `refines_relay`: what the devices say, what the server streams are handed and what
    `output_event` emits in a run, in this order, is what clients and servers see in a run
    of a relay.
  - `relayed`: so what holds of every relay holds of the local port: in every run, whatever
    fails, nothing is handed on that was not requested, or twice, or out of order, and
    nothing over a stream to a server that was not asked for.
-/

import AetherGateway.Relay
import AetherGateway.Simulation
import AetherGateway.Port.LinkErrors
import AetherGateway.Port.Replies

namespace AetherGateway.Streams.Manager

variable {m m' : Manager} {a : Nat}

/-! ## Server streams are only added -/

def madeFors (m : Manager) : List ServeKind := m.streams.map (·.madeFor)

def Grows (m m' : Manager) : Prop :=
  m'.streams = m.streams ∨ ∃ server f, m'.streams = m.streams ++ [⟨server, .unlinked, f⟩]

theorem Grows.linkState (h : Grows m m') (x : Nat) : m'.linkState x = m.linkState x := by
  rcases h with h | ⟨server, f, h⟩
  · rw [linkState_congr h]
  · unfold Manager.linkState
    rw [h]
    by_cases hlt : x < m.streams.length
    · rw [List.getElem?_append_left hlt]
    · rw [List.getElem?_eq_none (Nat.le_of_not_lt hlt), List.getElem?_append_right (Nat.le_of_not_lt hlt),
        List.getElem?_singleton]
      split <;> rfl

theorem getStream_grows (m : Manager) (alive : Nat → Bool) (id : ServerId) (cache : Bool) :
    Grows m (m.getStream alive id cache).1 := by
  rcases getStream_cases m alive id cache with ⟨-, s, -, -, e⟩ | ⟨-, -, e⟩ | ⟨-, e⟩ <;> rw [e] <;> exact Or.inl rfl

theorem getStreamTo_grows (m : Manager) (e : ServerEndpoints) : Grows m (m.getStreamTo e).1 :=
  Or.inr ⟨_, .endpoints e, congrArg (· ++ _) (buildServer_streams (m := m) 0 e)⟩

theorem resolve_grows (m : Manager) (a : Nat) (r : RequestServerStreamGetAction) (v : Nat) : Grows m (m.resolve a r v) :=
  Or.inr ⟨v, .id r.serverId, rfl⟩

theorem runAction_grows (m : Manager) (a : Nat) (act : StreamGetAction) : Grows m (m.runAction a act).1 := by
  cases act with
  | existing o => exact Or.inl rfl
  | request r =>
    rcases runAction_request m a r with ⟨-, e⟩ | ⟨-, v, -, e⟩ | ⟨-, -, e⟩ | ⟨-, e⟩ | ⟨-, e⟩ | ⟨-, e⟩ <;> rw [e]
    · exact Or.inl rfl
    · exact resolve_grows m a _ v
    · exact Or.inl rfl
    · exact Or.inl rfl
    · exact Or.inl rfl
    · exact Or.inl rfl

theorem onServers_grows {sds : List ServerDescriptor} (h : m.onServers a sds = some m') : Grows m m' := by
  obtain ⟨sd, rest, r, -, -, rfl⟩ := onServers_some h
  rcases resolve_grows (m.buildServer sd.serverId (endpointsOf sd)).1 a { r with getServers := .ended }
    (m.buildServer sd.serverId (endpointsOf sd)).2 with h | h
  · exact Or.inl (h.trans (buildServer_streams _ _))
  · rw [buildServer_streams] at h
    exact Or.inr h

end AetherGateway.Streams.Manager

namespace AetherGateway.Port

open AetherGateway.Streams AetherGateway.Runs

variable {hash : ServerEndpoints → UInt64} {s t : St} {k : Key} {e : StreamStore} {x : Nat}
variable {r : Relay Key ServeKind DataBuffer}

/-! ## What both sides see -/

inductive Visible where
  | request (k : Key) (server : ServeKind) (d : DataBuffer)
  | handed (k : Key) (serverStream : Nat) (d : DataBuffer)
  | output (serverStream : Nat) (o : Output)
  deriving DecidableEq, Repr

def visible (hash : ServerEndpoints → UInt64) (s : St) : Ev → List Visible
  | .input deviceId calls => calls.map fun c => .request ((c.flow deviceId).key hash) c.server c.data
  | .forward key n => ((s.streamStore.lookup key).bind fun e => e.stream.serverStream.map fun x =>
      (e.stream.buffer.take n).map (Visible.handed key x)).getD []
  | .packet x data => (packetOutput s x data).map (Visible.output x)
  | _ => []

def observe : Relay.Label Key ServeKind DataBuffer → List Visible
  | .said k server d => [.request k server d]
  | .handedOn k x ds => ds.map (Visible.handed k x)
  | .told x d keys => keys.map fun k => .output x (reply k d)
  | _ => []

def conversation (e : StreamStore) : Relay.Conversation ServeKind DataBuffer :=
  ⟨e.server, e.stream.serverStream, e.stream.buffer⟩

structure Refines (s : St) (r : Relay Key ServeKind DataBuffer) : Prop where
  channels : r.channels = s.mgr.madeFors
  failed : ∀ x, r.failed x ↔ s.mgr.linkState x = .linkError
  stored : ∀ k, r.conversation k = (s.streamStore.lookup k).map conversation

theorem init_refines (known : List Server) : Refines (init known) .empty where
  channels := rfl
  failed x := iff_of_false (fun h => h) (by simp [init, Manager.init, Manager.linkState])
  stored k := by simp [init, Relay.empty]

/-! ## Moves -/

/-- The streams that the manager has made are channels that were opened. -/
theorem Refines.grows (h : Refines s r) {m : Manager} (hg : s.mgr.Grows m) :
    ∃ ls u, Steps Relay.Step r ls u ∧ Refines { s with mgr := m } u ∧ ls.flatMap observe = [] := by
  have hfailed : ∀ x, r.failed x ↔ m.linkState x = .linkError := by
    intro x
    rw [hg.linkState, h.failed]
  rcases hg with hm | ⟨server, f, hm⟩
  · refine ⟨[], r, .nil r, ⟨?_, hfailed, h.stored⟩, rfl⟩
    rw [h.channels, Manager.madeFors, Manager.madeFors, hm]
  · refine ⟨[.opened f], r.openChannel f, .single (.opens r f), ⟨?_, hfailed, h.stored⟩, rfl⟩
    show r.channels ++ [f] = m.madeFors
    rw [h.channels, Manager.madeFors, Manager.madeFors, hm, List.map_append]
    rfl

/-- An entry of the store and its conversation change alike. -/
theorem Refines.set (h : Refines s r) (e' : StreamStore) {c : Relay.Conversation ServeKind DataBuffer}
    (hc : conversation e' = c) (hx : ∀ x, c.channel = some x → r.channels[x]? = some c.server)
    (hstore : ∀ j, t.streamStore.lookup j = if j = k then some e' else s.streamStore.lookup j)
    (hmgr : t.mgr.streams = s.mgr.streams) : Refines t (r.set k c hx) where
  channels := by
    rw [Manager.madeFors, hmgr]
    exact h.channels
  failed x := by
    rw [Manager.linkState_congr hmgr]
    exact h.failed x
  stored j := by
    rw [hstore]
    by_cases hj : j = k
    · rw [if_pos hj, hj, Option.map_some, hc]
      exact Function.update_self ..
    · rw [if_neg hj, ← h.stored j]
      exact Function.update_of_ne hj ..

theorem Refines.lookup (h : Refines s r) (hk : s.streamStore.lookup k = some e) :
    r.conversation k = some (conversation e) := by
  rw [h.stored, hk]
  rfl

/-- A call is said: it opens the stream of its key, or goes to the one that is stored. -/
theorem Refines.api (hash : ServerEndpoints → UInt64) (h : Refines s r) (d : UInt8) (c : Call) :
    ∃ ls u, Steps Relay.Step r ls u ∧ Refines (api hash d s c) u ∧
      ls.flatMap observe = [.request ((c.flow d).key hash) c.server c.data] := by
  let k := (c.flow d).key hash
  cases hk : s.streamStore.lookup k with
  | some e =>
    have hstep := Relay.Step.continues (h.lookup hk) c.server c.data
    refine ⟨_, _, .single hstep, ?_, rfl⟩
    refine h.set { e with stream := { e.stream with buffer := e.stream.buffer ++ [c.data] } } rfl _ ?_ ?_
    · intro j
      unfold Port.api
      rw [openStream_found hk, write_stored hk]
      exact lookup_insert_if ..
    · unfold Port.api
      rw [openStream_found hk, write_stored hk]
  | none =>
    have hg : s.mgr.Grows (gwStream s (c.flow d).server).1 := by
      cases hs : (c.flow d).server with
      | id i => exact Manager.getStream_grows s.mgr (alive s) i true
      | endpoints ep => exact Manager.getStreamTo_grows s.mgr ep
    obtain ⟨ls, u, hls, hu, hlook⟩ := h.grows hg
    have hnone : u.conversation k = none := by
      rw [hu.stored, hk]
      rfl
    have hstep := Relay.Step.begins hnone c.server c.data
    refine ⟨ls ++ [_], _, hls.append (.single hstep), ?_, ?_⟩
    · have hk' : (openStream hash s (c.flow d)).streamStore.lookup k =
          some ⟨c.server, (gwStream s c.server).2⟩ := by
        rw [openStream_new hk]
        exact AList.lookup_insert _
      refine hu.set ⟨c.server, { (gwStream s c.server).2 with buffer := [c.data] }⟩ rfl _ ?_ ?_
      · intro j
        unfold Port.api
        rw [write_stored hk', openStream_new hk]
        simp only [lookup_insert_if]
        split <;> rfl
      · unfold Port.api
        rewrite [write_stored hk', openStream_new hk]
        rfl
    · rw [List.flatMap_append, hlook]
      rfl

theorem Refines.input (hash : ServerEndpoints → UInt64) (h : Refines s r) (d : UInt8) (calls : List Call) :
    ∃ ls u, Steps Relay.Step r ls u ∧ Refines (input hash d s calls) u ∧
      ls.flatMap observe = calls.map fun c => .request ((c.flow d).key hash) c.server c.data := by
  unfold Port.input
  induction calls generalizing s r with
  | nil => exact ⟨[], r, .nil r, h, rfl⟩
  | cons c calls ih =>
    obtain ⟨ls, u, hls, hu, hlook⟩ := h.api hash d c
    obtain ⟨ls', u', hls', hu', hlook'⟩ := ih hu
    refine ⟨ls ++ ls', u', hls.append hls', hu', ?_⟩
    rw [List.flatMap_append, hlook, hlook']
    rfl

/-! ## Link errors -/

/-- An update takes the entry of the stream out of the store, if that has failed. -/
theorem lookup_emitUpdate (hi : Inv hash s) (g : Nat) :
    (emitUpdate s g).streamStore.lookup k = some e ↔
      s.streamStore.lookup k = some e ∧ ¬ (e.stream.id = g ∧ gwLinkState s e.stream = .linkError) := by
  by_cases hg : gwAlive s g = true
  · obtain ⟨k', e', hk', rfl⟩ := gwAlive_iff.mp hg
    rw [emitUpdate_eq hi hk']
    unfold streamState
    rw [hk']
    simp only
    split
    · next hl =>
      rw [lookup_erase_if]
      split
      · next he =>
        subst he
        refine iff_of_false (by intro h; cases h) fun ⟨hk, hn⟩ => ?_
        cases hk'.symm.trans hk
        exact hn ⟨rfl, hl⟩
      · next hne =>
        refine (and_iff_left_of_imp fun hk hn => ?_).symm
        exact hne (hi.key_unique hk hk' hn.1)
    · next hl =>
      refine (and_iff_left_of_imp fun hk hn => ?_).symm
      obtain rfl := hi.key_unique hk hk' hn.1
      cases hk'.symm.trans hk
      exact hl hn.2
  · unfold emitUpdate
    rw [if_neg hg]
    refine (and_iff_left_of_imp fun hk hn => hg ?_).symm
    exact gwAlive_iff.mpr ⟨k, e, hk, hn.1⟩

theorem lookup_foldl_emitUpdate (hi : Inv hash s) (l : List Nat) :
    (l.foldl emitUpdate s).streamStore.lookup k = some e ↔
      s.streamStore.lookup k = some e ∧ ¬ (e.stream.id ∈ l ∧ gwLinkState s e.stream = .linkError) := by
  induction l generalizing s with
  | nil => simp
  | cons g l ih =>
    have he := erases_emitUpdate s g
    rw [List.foldl_cons, ih (hi.erases he), lookup_emitUpdate hi, he.linkState, List.mem_cons]
    tauto

/-- The streams tied to a failed stream are taken out of the store, and no others. -/
theorem lookup_linkUpdate (hi : Inv hash s) (ha : alive s x = true) (st : LinkState) :
    (linkUpdate s x st).streamStore.lookup k = some e ↔
      s.streamStore.lookup k = some e ∧ ¬ (e.stream.serverStream = some x ∧ st = .linkError) := by
  obtain ⟨f, hf⟩ := hi.alive_madeFor ha
  unfold linkUpdate
  rw [lookup_foldl_emitUpdate (hi.setLinkState x st)]
  refine and_congr_right fun hk => not_congr ?_
  rw [mem_tiedTo, ← hi.tied k e x hk]
  refine and_congr_right fun hx => ?_
  rw [gwLinkState, hx, Option.elim_some, Manager.linkState_setLinkState_self st hf]

theorem madeFors_setLinkState (m : Manager) (x : Nat) (st : LinkState) :
    (m.setLinkState x st).madeFors = m.madeFors := by
  unfold Manager.madeFors Manager.setLinkState
  apply List.ext_getElem?
  intro i
  rw [List.getElem?_map, List.getElem?_map, List.getElem?_modify]
  split
  · cases m.streams[i]? <;> rfl
  · cases m.streams[i]? <;> rfl

/-- What is left of the store when a server stream fails. -/
theorem stored_linkError (hi : Inv hash s) (ha : alive s x = true) (k : Key) :
    (linkUpdate s x .linkError).streamStore.lookup k =
      (s.streamStore.lookup k).filter (·.stream.serverStream != some x) := by
  apply Option.ext
  intro e
  rw [lookup_linkUpdate hi ha, Option.filter_eq_some_iff, bne_iff_ne]
  exact and_congr_right fun _ => not_congr (and_iff_left rfl)

/-- Any other state of the link leaves the store as it is. -/
theorem stored_linkUpdate (hi : Inv hash s) (ha : alive s x = true) {st : LinkState} (hst : st ≠ .linkError) (k : Key) :
    (linkUpdate s x st).streamStore.lookup k = s.streamStore.lookup k := by
  apply Option.ext
  intro e
  rw [lookup_linkUpdate hi ha]
  exact and_iff_left fun hn => hst hn.2

theorem linkState_linkUpdate (hi : Inv hash s) (ha : alive s x = true) (st : LinkState) (y : Nat) :
    (linkUpdate s x st).mgr.linkState y = if y = x then st else s.mgr.linkState y := by
  obtain ⟨f, hf⟩ := hi.alive_madeFor ha
  rw [(linkUpdate_erases s x st).mgr]
  split
  · next hy =>
    rw [hy]
    exact Manager.linkState_setLinkState_self st hf
  · next hy => exact Manager.linkState_setLinkState_ne st hy

theorem Refines.link (h : Refines s r) (hi : Inv hash s) (ha : alive s x = true) {st : LinkState}
    (hl : s.mgr.linkState x = .linkError → st = .linkError) :
    ∃ ls u, Steps Relay.Step r ls u ∧ Refines (linkUpdate s x st) u ∧ ls.flatMap observe = [] := by
  have hchannels : r.channels = (linkUpdate s x st).mgr.madeFors := by
    rw [(linkUpdate_erases s x st).mgr, madeFors_setLinkState]
    exact h.channels
  by_cases hst : st = .linkError
  · -- the conversations of the channel end
    subst hst
    refine ⟨[.failed x], r.fail x, .single (.fails r x), ⟨hchannels, fun y => ?_, fun k => ?_⟩, rfl⟩
    · show y = x ∨ r.failed y ↔ _
      rw [linkState_linkUpdate hi ha, h.failed]
      by_cases hy : y = x <;> simp [hy]
    · show (r.conversation k).filter (·.channel != some x) = _
      rw [h.stored, stored_linkError hi ha, Option.filter_map]
      rfl
  · refine ⟨[], r, .nil r, ⟨hchannels, fun y => ?_, fun k => ?_⟩, rfl⟩
    · rw [linkState_linkUpdate hi ha, h.failed]
      split
      · next hy =>
        rw [hy]
        exact ⟨hl, fun he => absurd he hst⟩
      · rfl
    · rw [h.stored, stored_linkUpdate hi ha hst]

theorem Refines.streamUpdate (h : Refines s r) (hi : Inv hash s) (hk : s.streamStore.lookup k = some e) :
    ∃ ls u, Steps Relay.Step r ls u ∧ Refines (emitUpdate s e.stream.id) u ∧ ls.flatMap observe = [] := by
  rw [emitUpdate_eq hi hk]
  unfold streamState
  rw [hk]
  simp only
  split
  · next hl =>
    unfold gwLinkState at hl
    cases hx : e.stream.serverStream with
    | none =>
      rw [hx] at hl
      cases hl
    | some x =>
      rw [hx] at hl
      have hend := Relay.Step.ends (h.lookup hk) hx ((h.failed x).mpr hl)
      refine ⟨[.ended k], r.forget k, .single hend, ⟨h.channels, h.failed, fun j => ?_⟩, rfl⟩
      show Function.update r.conversation k none j = _
      rw [lookup_erase_if]
      by_cases hj : j = k
      · rw [if_pos hj, hj]
        exact Function.update_self ..
      · rw [if_neg hj, ← h.stored j]
        exact Function.update_of_ne hj ..
  · exact ⟨[], r, .nil r, h, rfl⟩

/-! ## Packets -/

/-- The keys that a packet's emissions are for, in their order. -/
theorem emitted_keys (hi : Inv hash s) (d : DataBuffer) {l : List Nat} (hl : l.Nodup) :
    ∃ keys : List Key, keys.Nodup ∧
      (∀ k, k ∈ keys ↔ ∃ e, s.streamStore.lookup k = some e ∧ e.stream.id ∈ l) ∧
      keys.map (reply · d) = l.flatMap (emitData s · d) := by
  induction l with
  | nil => exact ⟨[], List.nodup_nil, by simp, rfl⟩
  | cons g l ih =>
    obtain ⟨hg, hl⟩ := List.nodup_cons.mp hl
    obtain ⟨keys, hnodup, hmem, hmap⟩ := ih hl
    rw [List.flatMap_cons, ← hmap]
    by_cases halive : gwAlive s g = true
    · obtain ⟨k, e, hk, rfl⟩ := gwAlive_iff.mp halive
      refine ⟨k :: keys, List.nodup_cons.mpr ⟨fun hin => ?_, hnodup⟩, fun j => ?_, ?_⟩
      · obtain ⟨e', hk', hid⟩ := (hmem k).mp hin
        cases hk.symm.trans hk'
        exact hg hid
      · rw [List.mem_cons, hmem]
        constructor
        · rintro (rfl | ⟨e', hj, hid⟩)
          · exact ⟨e, hk, List.mem_cons_self⟩
          · exact ⟨e', hj, List.mem_cons_of_mem _ hid⟩
        · rintro ⟨e', hj, hid⟩
          rcases List.mem_cons.mp hid with hid | hid
          · exact Or.inl (hi.key_unique hj hk hid)
          · exact Or.inr ⟨e', hj, hid⟩
      · rw [emitData_eq hi hk]
        rfl
    · refine ⟨keys, hnodup, fun j => ?_, ?_⟩
      · rw [hmem]
        refine exists_congr fun e => and_congr_right fun hj => ?_
        refine (List.mem_cons.trans (or_iff_right fun hid => halive ?_)).symm
        exact gwAlive_iff.mpr ⟨j, e, hj, hid⟩
      · unfold emitData
        rw [if_neg halive]
        rfl

theorem Refines.packet (h : Refines s r) (hi : Inv hash s) (x : Nat) (d : DataBuffer) :
    ∃ keys, Relay.Step r (.told x d keys) r ∧ keys.map (reply · d) = packetOutput s x d := by
  have hnodup : (tiedTo s x).Nodup := (List.filter_sublist.map _).nodup hi.ties
  obtain ⟨keys, hkeys, hmem, hmap⟩ := emitted_keys hi d hnodup
  refine ⟨keys, .tells hkeys (fun k => ?_) d, hmap⟩
  rw [hmem]
  constructor
  · rintro ⟨e, hk, hid⟩
    exact ⟨conversation e, h.lookup hk, (hi.tied k e x hk).mpr (mem_tiedTo.mp hid)⟩
  · rintro ⟨c, hc, hx⟩
    rw [h.stored] at hc
    obtain ⟨e, hk, rfl⟩ := Option.map_eq_some_iff.mp hc
    exact ⟨e, hk, mem_tiedTo.mpr ((hi.tied k e x hk).mp hx)⟩

/-! ## Runs -/

theorem simulates (hash : ServerEndpoints → UInt64) :
    Simulates (step hash) Relay.Step (fun s r => Inv hash s ∧ Refines s r) (visible hash) observe := by
  rintro s r ev t ⟨hi, h⟩ hs
  have hit := step_inv hi hs
  suffices hsim : ∃ ls u, Steps Relay.Step r ls u ∧ Refines t u ∧ ls.flatMap observe = visible hash s ev by
    obtain ⟨ls, u, hls, hu, hlook⟩ := hsim
    exact ⟨ls, u, hls, ⟨hit, hu⟩, hlook⟩
  cases step_moved hi hs with
  | input d calls => exact h.input hash d calls
  | turn hto =>
    cases ev with
    | update a =>
      obtain ⟨act, -, -, rfl⟩ := hto
      exact h.grows (Manager.runAction_grows s.mgr a act)
    | servers a sds => exact h.grows (Manager.onServers_grows hto)
    | serversError a =>
      obtain ⟨q, -, rfl⟩ := Option.map_eq_some_iff.mp hto
      exact h.grows (Or.inl rfl)
    | serversStop a =>
      obtain ⟨q, -, rfl⟩ := Option.map_eq_some_iff.mp hto
      exact h.grows (Or.inl rfl)
    | input | link | streamUpdate | forward | packet => cases hto
  | @tie a x act k e ha hk hid hn hact hx =>
    have hchannel : r.channels[x]? = some (conversation e).server := by
      rw [h.channels, Manager.madeFors, List.getElem?_map]
      exact hx
    refine ⟨_, _, .single (.connects (h.lookup hk) hn hchannel), ?_, rfl⟩
    refine h.set { e with stream := { e.stream with serverStream := some x } } rfl _ (fun j => ?_) rfl
    exact lookup_insert_if ..
  | link ha hl => exact h.link hi ha hl
  | streamUpdate hk => exact h.streamUpdate hi hk
  | @forward k e x n hk hx =>
    have hheld : (conversation e).held = e.stream.buffer.take n ++ e.stream.buffer.drop n :=
      (List.take_append_drop n _).symm
    refine ⟨_, _, .single (.handsOn (h.lookup hk) hx hheld), ?_, ?_⟩
    · refine h.set { e with stream := { e.stream with buffer := e.stream.buffer.drop n } } rfl _ (fun j => ?_) rfl
      exact lookup_insert_if ..
    · simp [observe, visible, hk, hx]
  | @packet x d ha =>
    obtain ⟨keys, hstep, hmap⟩ := h.packet hi x d
    refine ⟨_, _, .single hstep, ⟨h.channels, h.failed, h.stored⟩, ?_⟩
    simp only [List.flatMap_singleton, observe, visible, ← hmap]
    exact List.map_map.symm

def Visible.requestedUnder (k : Key) : Visible → List DataBuffer
  | .request j _ d => if j = k then [d] else []
  | _ => []

def Visible.handedUnder (k : Key) : Visible → List DataBuffer
  | .handed j _ d => if j = k then [d] else []
  | _ => []

theorem observe_requested (l : Relay.Label Key ServeKind DataBuffer) (k : Key) :
    (observe l).flatMap (Visible.requestedUnder k) = l.saidUnder k := by
  cases l with
  | said j server d => exact List.append_nil _
  | handedOn j x ds => exact (List.flatMap_map ..).trans (List.flatMap_eq_nil_iff.mpr fun _ _ => rfl)
  | told x d keys => exact (List.flatMap_map ..).trans (List.flatMap_eq_nil_iff.mpr fun _ _ => rfl)
  | opened | connected | failed | ended => rfl

theorem observe_handed (l : Relay.Label Key ServeKind DataBuffer) (k : Key) :
    (observe l).flatMap (Visible.handedUnder k) = l.handedUnder k := by
  cases l with
  | handedOn j x ds =>
    simp only [observe, List.flatMap_map, Visible.handedUnder, Relay.Label.handedUnder]
    by_cases hj : j = k
    · simp [hj]
    · simp [hj]
  | told x d keys => exact (List.flatMap_map ..).trans (List.flatMap_eq_nil_iff.mpr fun _ _ => rfl)
  | said | opened | connected | failed | ended => rfl

theorem mem_handed {l : Relay.Label Key ServeKind DataBuffer} {d : DataBuffer} (h : .handed k x d ∈ observe l) :
    l.uses k x := by
  cases l with
  | handedOn j y ds =>
    obtain ⟨d', -, he⟩ := List.mem_map.mp h
    cases he
    exact ⟨rfl, rfl⟩
  | told y d' keys =>
    obtain ⟨j, -, he⟩ := List.mem_map.mp h
    cases he
  | said => cases List.mem_singleton.mp h
  | opened | connected | failed | ended => cases h

theorem mem_output {l : Relay.Label Key ServeKind DataBuffer} {o : Output} (h : .output x o ∈ observe l) :
    ∃ k, l.uses k x ∧ k.deviceId = o.deviceId ∧ k.clientId = o.call.clientId := by
  cases l with
  | told y d keys =>
    obtain ⟨k, hk, he⟩ := List.mem_map.mp h
    cases he
    exact ⟨k, ⟨rfl, hk⟩, rfl, rfl⟩
  | handedOn j y ds =>
    obtain ⟨d, -, he⟩ := List.mem_map.mp h
    cases he
  | said => cases List.mem_singleton.mp h
  | opened | connected | failed | ended => cases h

theorem Refines.held (h : Refines s r) (k : Key) :
    r.heldUnder k = (s.streamStore.lookup k).elim [] (·.stream.buffer) := by
  rw [Relay.heldUnder, h.stored]
  cases s.streamStore.lookup k <;> rfl

/-- The server stream goes to a server that was asked for under the key. -/
def AskedUnder (s : St) (tr : List Visible) (x : Nat) (k : Key) : Prop :=
  ∃ server d, .request k server d ∈ tr ∧ s.mgr.madeFor x = some server

/-- In every run, whatever fails: what server streams are handed under a key, and what is
    held, was requested under it, nothing of it twice and in order; and a stream that is
    handed data or brings an answer under a key goes to a server that was asked for under
    that key. -/
theorem relayed {known : List Server} {es : List Ev} (h : exec (step hash) (init known) es = some s) :
    let tr := image (step hash) (visible hash) (init known) es
    (∀ k, (tr.flatMap (Visible.handedUnder k) ++ (s.streamStore.lookup k).elim [] (·.stream.buffer)).Sublist
      (tr.flatMap (Visible.requestedUnder k))) ∧
      (∀ k x d, .handed k x d ∈ tr → AskedUnder s tr x k) ∧
      ∀ x o, .output x o ∈ tr → ∃ k, AskedUnder s tr x k ∧ k.deviceId = o.deviceId ∧ k.clientId = o.call.clientId := by
  intro tr
  obtain ⟨ls, r, hls, ⟨-, hr⟩, hlook⟩ := (simulates hash).run ⟨init_inv known, init_refines known⟩ h
  have hlook : ls.flatMap observe = tr := hlook
  have asked : ∀ {l k x}, l ∈ ls → l.uses k x → AskedUnder s tr x k := by
    intro l k x hl hu
    obtain ⟨server, hx, ⟨c, hk, -⟩ | ⟨d, hsaid⟩⟩ := Relay.uses_asked hls hl hu
    · cases hk
    · refine ⟨server, d, ?_, ?_⟩
      · rw [← hlook]
        exact List.mem_flatMap.mpr ⟨_, hsaid, List.mem_singleton_self _⟩
      · rw [hr.channels, Manager.madeFors, List.getElem?_map] at hx
        exact hx
  rw [← hlook] at asked ⊢
  refine ⟨fun k => ?_, fun k x d hm => ?_, fun x o hm => ?_⟩
  · rw [← hr.held, List.flatMap_assoc, List.flatMap_assoc]
    simp only [observe_handed, observe_requested]
    exact Relay.handed_sublist hls k
  · obtain ⟨l, hl, hm⟩ := List.mem_flatMap.mp hm
    exact asked hl (mem_handed hm)
  · obtain ⟨l, hl, hm⟩ := List.mem_flatMap.mp hm
    obtain ⟨k, hu, hdev, hclient⟩ := mem_output hm
    exact ⟨k, asked hl hu, hdev, hclient⟩

/-- A stream fails with a datum that it holds; the next call opens another. -/
theorem relayed_reopened :
    let es := [Ev.input 1 [.toServerId 1 5 [10], .toServerId 1 5 [20]], .update 0, .update 0, .forward ⟨1, 1, 5⟩ 1,
      .link 0 .linkError, .input 1 [.toServerId 1 5 [30]], .update 1, .update 1, .forward ⟨1, 1, 5⟩ 1]
    ∃ s, exec (step fun _ => 0) (init [⟨5, []⟩]) es = some s ∧ s.handed.map (·.data) = [[10], [30]] ∧
      [[10], [30]].Sublist ((image (step fun _ => 0) (visible fun _ => 0) (init [⟨5, []⟩]) es).flatMap
        (Visible.requestedUnder ⟨1, 1, 5⟩)) := by
  intro es
  obtain ⟨hsub, -⟩ := relayed (rfl : exec (step fun _ => 0) (init [⟨5, []⟩]) es = some _)
  exact ⟨_, rfl, rfl, hsub ⟨1, 1, 5⟩⟩

end AetherGateway.Port
