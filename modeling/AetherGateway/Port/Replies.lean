/-
  AetherGateway.Port.Replies — who receives what a server sends (see
  `AetherGateway.Port.LocalPort`).

  Actors. Server streams shared through the cache feed the streams of several clients; a
  packet reaches a client through the tie, the stream's one data subscription and the
  entry found again by its key.
  - `fanOut_always`: in every run a packet makes one emission for each entry tied to its
    stream and none for anybody else, each client at most once, only to clients that
    addressed the server, in arrival order; the server behind the stream is the one they
    addressed, if the cloud answers for the id it was asked for.
  - `isolated_always`: one emission for each client whose stored stream is tied to the
    packet's, a client that addressed the server, and no other; at most one in total on a
    stream to endpoints.
  - `shared_reply`: on a cached stream a packet reaches both clients that share it.
-/

import AetherGateway.Port.Routing
import AetherGateway.Streams.Servers

namespace AetherGateway.Port

open AetherGateway.Streams AetherGateway.Runs

variable {hash : ServerEndpoints → UInt64} {s t : St} {k k' : Key} {e e' : StreamStore} {x : Nat} {d : DataBuffer}

/-! ## One packet -/

def recipients (s : St) (x : Nat) : List Key :=
  (s.streamStore.entries.filter fun p => p.2.stream.serverStream == some x).map (·.1)

def reply (k : Key) (d : DataBuffer) : Output := ⟨k.deviceId, k.clientId, d⟩

theorem mem_recipients :
    k ∈ recipients s x ↔ ∃ e, s.streamStore.lookup k = some e ∧ e.stream.serverStream = some x := by
  unfold recipients
  simp only [List.mem_map, List.mem_filter, beq_iff_eq]
  constructor
  · rintro ⟨⟨k, e⟩, ⟨hm, hx⟩, rfl⟩; exact ⟨e, AList.mem_lookup_iff.mpr hm, hx⟩
  · rintro ⟨e, hk, hx⟩; exact ⟨⟨k, e⟩, ⟨AList.mem_lookup_iff.mp hk, hx⟩, rfl⟩

theorem recipients_nodup (s : St) (x : Nat) : (recipients s x).Nodup :=
  (List.filter_sublist.map _).nodup s.streamStore.keys_nodup

/-- A client holds one server stream under one key: the key's server is the one the
    stream was made for. -/
theorem Inv.tied_key (h : Inv hash s) (hk : s.streamStore.lookup k = some e) (hk' : s.streamStore.lookup k' = some e')
    (hx : e.stream.serverStream = some x) (hx' : e'.stream.serverStream = some x)
    (hd : k.deviceId = k'.deviceId) (hc : k.clientId = k'.clientId) : k = k' := by
  obtain ⟨f, -, rfl, hf⟩ := h.entry k e hk
  obtain ⟨f', -, rfl, hf'⟩ := h.entry k' e' hk'
  have hm := h.madeFor _ e x hk hx
  rw [h.madeFor _ e' x hk' hx'] at hm
  simp only [Flow.key] at hd hc ⊢
  rw [hd, hc, hf, hf', Option.some.inj hm]

/-- A client is among the recipients once. -/
theorem recipients_clients_nodup (h : Inv hash s) (x : Nat) (d : DataBuffer) :
    ((recipients s x).map fun k => reply k d).Nodup := by
  refine (recipients_nodup s x).map_on ?_
  intro k hk k' hk' he
  obtain ⟨e, hl, hx⟩ := mem_recipients.mp hk
  obtain ⟨e', hl', hx'⟩ := mem_recipients.mp hk'
  simp only [reply, Output.mk.injEq, FromServer.mk.injEq] at he
  exact h.tied_key hl hl' hx hx' he.1 he.2.1

theorem mem_tiedTo {g : Nat} : g ∈ tiedTo s x ↔ (x, g) ∈ s.ties := by
  unfold tiedTo
  simp only [List.mem_map, List.mem_filter, beq_iff_eq]
  constructor
  · rintro ⟨⟨y, g⟩, ⟨hm, rfl⟩, rfl⟩; exact hm
  · intro h; exact ⟨(x, g), ⟨h, rfl⟩, rfl⟩

/-- A stored stream's data goes out once, for its own entry; any other stream's nowhere. -/
theorem emitData_eq (h : Inv hash s) (hk : s.streamStore.lookup k = some e) (d : DataBuffer) :
    emitData s e.stream.id d = [reply k d] := by
  obtain ⟨f, hf, rfl, -⟩ := h.entry k e hk
  unfold emitData
  rw [if_pos (gwAlive_iff.mpr ⟨_, e, hk, rfl⟩), h.outSubs, hf]
  simp [outData, hk, reply]

theorem mem_emitData (h : Inv hash s) {g : Nat} {o : Output} :
    o ∈ emitData s g d ↔ ∃ k e, s.streamStore.lookup k = some e ∧ e.stream.id = g ∧ o = reply k d := by
  constructor
  · intro ho
    by_cases ha : gwAlive s g = true
    · obtain ⟨k, e, hk, rfl⟩ := gwAlive_iff.mp ha
      rw [emitData_eq h hk, List.mem_singleton] at ho
      exact ⟨k, e, hk, rfl, ho⟩
    · unfold emitData at ho
      rw [if_neg ha] at ho
      cases ho
  · rintro ⟨k, e, hk, rfl, rfl⟩
    rw [emitData_eq h hk]
    exact List.mem_singleton.mpr rfl

theorem emitData_nodup (h : Inv hash s) (g : Nat) (d : DataBuffer) : (emitData s g d).Nodup := by
  by_cases ha : gwAlive s g = true
  · obtain ⟨k, e, hk, rfl⟩ := gwAlive_iff.mp ha
    rw [emitData_eq h hk]
    exact List.nodup_singleton _
  · unfold emitData
    rw [if_neg ha]
    exact List.nodup_nil

theorem mem_packetOutput (h : Inv hash s) {o : Output} :
    o ∈ packetOutput s x d ↔ ∃ k ∈ recipients s x, o = reply k d := by
  unfold packetOutput
  simp only [List.mem_flatMap, mem_tiedTo, mem_emitData h, mem_recipients]
  constructor
  · rintro ⟨g, hg, k, e, hk, rfl, rfl⟩; exact ⟨k, ⟨e, hk, (h.tied k e x hk).mpr hg⟩, rfl⟩
  · rintro ⟨k, ⟨e, hk, hx⟩, rfl⟩; exact ⟨_, (h.tied k e x hk).mp hx, k, e, hk, rfl, rfl⟩

theorem packetOutput_nodup (h : Inv hash s) (x : Nat) (d : DataBuffer) : (packetOutput s x d).Nodup := by
  refine List.nodup_flatMap.mpr ⟨fun g _ => emitData_nodup h g d, ?_⟩
  have hn : (tiedTo s x).Nodup := (List.filter_sublist.map _).nodup h.ties
  refine hn.imp_of_mem fun {g g'} hg hg' hne => ?_
  -- one emission for two ties: one client, one key, one stream
  intro o ho ho'
  obtain ⟨k, e, hk, rfl, rfl⟩ := (mem_emitData h).mp ho
  obtain ⟨k', e', hk', rfl, he⟩ := (mem_emitData h).mp ho'
  simp only [reply, Output.mk.injEq, FromServer.mk.injEq] at he
  have hx := (h.tied k e x hk).mpr (mem_tiedTo.mp hg)
  have hx' := (h.tied k' e' x hk').mpr (mem_tiedTo.mp hg')
  obtain rfl := h.tied_key hk hk' hx hx' he.1 he.2.1
  rw [hk] at hk'
  cases hk'
  exact hne rfl

/-- One emission for each entry tied to the stream, and no other. -/
theorem packetOutput_perm (h : Inv hash s) (x : Nat) (d : DataBuffer) :
    (packetOutput s x d).Perm ((recipients s x).map fun k => reply k d) := by
  refine (List.perm_ext_iff_of_nodup (packetOutput_nodup h x d) (recipients_clients_nodup h x d)).mpr fun o => ?_
  rw [mem_packetOutput h, List.mem_map]
  constructor
  · rintro ⟨k, hk, rfl⟩; exact ⟨k, hk, rfl⟩
  · rintro ⟨k, hk, rfl⟩; exact ⟨k, hk, rfl⟩

/-! ## Runs -/

/-- What a packet makes `output_event` emit: one emission for each entry tied to the
    stream. -/
def replies (s : St) : Ev → List (Nat × Output)
  | .packet x d => (recipients s x).map fun k => (x, reply k d)
  | _ => []

def from? (x : Nat) (dev : UInt8) (c : ClientId) (p : Nat × Output) : Bool :=
  p.1 = x ∧ p.2.deviceId = dev ∧ p.2.call.clientId = c

def received (s : St) (x : Nat) (dev : UInt8) (c : ClientId) : List DataBuffer :=
  (s.output.filter (from? x dev c)).map (·.2.call.data)

def arrivals (s : St) (x : Nat) : List DataBuffer := (s.arrived.filter (·.1 == x)).map (·.2)

/-- The client called for the server that the stream was made for. -/
def Addressed (s : St) (x : Nat) (o : Output) : Prop :=
  ∃ w ∈ s.writes, w.flow.deviceId = o.deviceId ∧ w.flow.clientId = o.call.clientId ∧ s.mgr.madeFor x = some w.flow.server

structure FanOut (hash : ServerEndpoints → UInt64) (s : St) : Prop where
  exact : ∀ ev t, step hash s ev = some t → ∃ l, t.output = s.output ++ l ∧ l.Perm (replies s ev)
  /-- A client has one entry tied to a stream, whatever was opened and removed before. -/
  once : ∀ x, ((recipients s x).map fun k => (k.deviceId, k.clientId)).Nodup
  addressed : ∀ p ∈ s.output, Addressed s p.1 p.2
  order : ∀ x dev c, (received s x dev c).Sublist (arrivals s x)

structure Told (s : St) : Prop where
  called : ∀ f ∈ s.made, ∃ w ∈ s.writes, w.flow = f
  addressed : ∀ p ∈ s.output, Addressed s p.1 p.2
  order : ∀ x dev c, (received s x dev c).Sublist (arrivals s x)

/-- Only packets are emitted, and only as they arrive. -/
theorem Moved.packets {ev : Ev} (h : Moved hash s ev t) :
    (∃ x d, ev = .packet x d ∧ t = { s with
      output := s.output ++ (packetOutput s x d).map (x, ·)
      arrived := s.arrived ++ [(x, d)] }) ∨
    (replies s ev = [] ∧ t.output = s.output ∧ t.arrived = s.arrived) := by
  cases h with
  | input d calls => exact Or.inr ⟨rfl, (input_frame hash d s calls).1, (input_frame hash d s calls).2.1⟩
  | @turn ev a act m hs ha hm ht =>
    cases ev with
    | packet x d => cases hs
    | _ => exact Or.inr ⟨rfl, rfl, rfl⟩
  | tie _ _ _ _ _ _ => exact Or.inr ⟨rfl, rfl, rfl⟩
  | @link x st _ _ =>
    have he := linkUpdate_erases s x st
    exact Or.inr ⟨rfl, by rw [he.frame], by rw [he.frame]⟩
  | @streamUpdate k e hk =>
    have he := erases_emitUpdate s e.stream.id
    exact Or.inr ⟨rfl, by rw [he.frame], by rw [he.frame]⟩
  | forward _ _ _ => exact Or.inr ⟨rfl, rfl, rfl⟩
  | @packet x d ha => exact Or.inl ⟨x, d, rfl, rfl⟩

/-- A call makes a stream for its own flow only, and writes for it. -/
theorem input_called (h : Inv hash s) (hc : ∀ f ∈ s.made, ∃ w ∈ s.writes, w.flow = f) (d : UInt8)
    (calls : List Call) : ∀ f ∈ (input hash d s calls).made, ∃ w ∈ (input hash d s calls).writes, w.flow = f := by
  unfold input
  induction calls generalizing s with
  | nil => exact hc
  | cons c calls ih =>
    refine ih (h.api d c) fun f hf => ?_
    obtain ⟨g, hw, -, -⟩ := api_writes h d c
    rw [hw]
    rcases api_made hash d s c hf with hf | rfl
    · obtain ⟨w, hmem, e⟩ := hc f hf
      exact ⟨w, List.mem_append_left _ hmem, e⟩
    · exact ⟨_, List.mem_append_right _ (List.mem_singleton.mpr rfl), rfl⟩

theorem Addressed.mono {o : Output} (h : Addressed s x o) (hw : s.writes <+: t.writes)
    (hm : ∀ y f, s.mgr.madeFor y = some f → t.mgr.madeFor y = some f) : Addressed t x o := by
  obtain ⟨w, hmem, hd, hc, hf⟩ := h
  exact ⟨w, hw.subset hmem, hd, hc, hm x _ hf⟩

/-- The recipients of a packet are clients that called for the stream's server. -/
theorem Told.recipient (h : Told s) (hi : Inv hash s) (hk : k ∈ recipients s x) (d : DataBuffer) :
    Addressed s x (reply k d) := by
  obtain ⟨e, hl, hx⟩ := mem_recipients.mp hk
  obtain ⟨f, hf, rfl, hsv⟩ := hi.entry k e hl
  obtain ⟨w, hmem, rfl⟩ := h.called f (List.mem_of_getElem? hf)
  exact ⟨w, hmem, rfl, rfl, by rw [hsv]; exact hi.madeFor _ e x hl hx⟩

/-- A list without repetition that holds `a` only. -/
theorem sublist_singleton {α : Type} {a : α} {l : List α} (hn : l.Nodup) (h : ∀ b ∈ l, b = a) : l.Sublist [a] := by
  obtain ⟨n, rfl⟩ : ∃ n, l = List.replicate n a := ⟨_, List.eq_replicate_of_mem h⟩
  exact (List.replicate_sublist_replicate a (n := 1)).mpr (List.nodup_replicate.mp hn)

/-- A client's emissions for one packet: that packet, or nothing. -/
theorem received_packet (h : Inv hash s) (x y : Nat) (d : DataBuffer) (dev : UInt8) (c : ClientId) :
    ((((packetOutput s x d).map (x, ·)).filter (from? y dev c)).map (·.2.call.data)).Sublist
      (([(x, d)].filter (·.1 == y)).map (·.2)) := by
  by_cases hy : x = y
  · subst hy
    have hn : (((packetOutput s x d).map (x, ·)).filter (from? x dev c)).Nodup :=
      ((packetOutput_nodup h x d).map fun o o' e => (Prod.mk.inj e).2).filter _
    have hall : ∀ p ∈ ((packetOutput s x d).map (x, ·)).filter (from? x dev c), p = (x, ⟨dev, c, d⟩) := by
      intro p hp
      obtain ⟨hp, hf⟩ := List.mem_filter.mp hp
      obtain ⟨o, ho, rfl⟩ := List.mem_map.mp hp
      obtain ⟨k, -, rfl⟩ := (mem_packetOutput h).mp ho
      simp only [from?, decide_eq_true_eq] at hf
      rw [← hf.2.1, ← hf.2.2]; rfl
    have hs := (sublist_singleton hn hall).map (·.2.call.data)
    simpa using hs
  · have hno : ((packetOutput s x d).map (x, ·)).filter (from? y dev c) = [] := by
      refine List.filter_eq_nil_iff.mpr fun p hp => ?_
      obtain ⟨o, -, rfl⟩ := List.mem_map.mp hp
      simp [from?, hy]
    rw [hno]
    exact List.nil_sublist _

theorem Told.step {ev : Ev} (h : Told s) (hi : Inv hash s) (hs : step hash s ev = some t) : Told t := by
  have hm := step_moved hi hs
  have hw := hm.writes hi
  have hmade : ∀ y f, s.mgr.madeFor y = some f → t.mgr.madeFor y = some f := fun _ _ => hm.madeFor hi
  refine ⟨?_, ?_, ?_⟩
  · rcases hm.frame with ⟨d, calls, -, rfl⟩ | ⟨-, -, hma, hwr⟩
    · exact input_called hi h.called d calls
    · rw [hma, hwr]; exact h.called
  · intro p hp
    rcases hm.packets with ⟨x, d, -, rfl⟩ | ⟨-, ho, -⟩
    · rcases List.mem_append.mp hp with hp | hp
      · exact (h.addressed p hp).mono hw hmade
      · obtain ⟨o, ho, rfl⟩ := List.mem_map.mp hp
        obtain ⟨k, hk, rfl⟩ := (mem_packetOutput hi).mp ho
        exact (h.recipient hi hk d).mono hw hmade
    · rw [ho] at hp
      exact (h.addressed p hp).mono hw hmade
  · intro y dev c
    rcases hm.packets with ⟨x, d, -, rfl⟩ | ⟨-, ho, ha⟩
    · simp only [received, arrivals, List.filter_append, List.map_append]
      exact (h.order y dev c).append (received_packet hi x y d dev c)
    · rw [received, arrivals, ho, ha]; exact h.order y dev c

theorem init_told (known : List Server) : Told (init known) :=
  ⟨fun _ hf => absurd hf List.not_mem_nil, fun _ hp => absurd hp List.not_mem_nil, fun _ _ _ => List.Sublist.refl _⟩

/-- A step emits for the recipients of its packet. -/
theorem exact_step {ev : Ev} (h : Inv hash s) (hs : step hash s ev = some t) :
    ∃ l, t.output = s.output ++ l ∧ l.Perm (replies s ev) := by
  rcases (step_moved h hs).packets with ⟨x, d, rfl, rfl⟩ | ⟨hr, ho, -⟩
  · refine ⟨_, rfl, ?_⟩
    have hp := (packetOutput_perm h x d).map (x, ·)
    rwa [List.map_map] at hp
  · exact ⟨[], by rw [ho, List.append_nil], by rw [hr]⟩

theorem Told.fanOut (h : Told s) (hi : Inv hash s) : FanOut hash s := by
  refine ⟨fun ev t hs => exact_step hi hs, fun x => ?_, h.addressed, h.order⟩
  refine (recipients_nodup s x).map_on fun k hk k' hk' he => ?_
  obtain ⟨e, hl, hx⟩ := mem_recipients.mp hk
  obtain ⟨e', hl', hx'⟩ := mem_recipients.mp hk'
  exact hi.tied_key hl hl' hx hx' (Prod.mk.inj he).1 (Prod.mk.inj he).2

/-- The cloud answers a request with the server it asked for. -/
def AnsweredFor (s : St) : Ev → Prop
  | .servers a sds => s.mgr.Answered a sds
  | _ => True

instance (s : St) : (ev : Ev) → Decidable (AnsweredFor s ev)
  | .servers a sds => inferInstanceAs (Decidable (s.mgr.Answered a sds))
  | .input _ _ | .update _ | .serversError _ | .serversStop _ | .link _ _ | .streamUpdate _ | .forward _ _ |
    .packet _ _ => .isTrue trivial

theorem genuine_api (h : s.mgr.Genuine) (d : UInt8) (c : Call) : (api hash d s c).mgr.Genuine := by
  obtain ⟨e, he, -⟩ := openStream_lookup hash s (c.flow d)
  rw [api, write_stored he c.data]
  cases hk : s.streamStore.lookup ((c.flow d).key hash) with
  | some e => rw [openStream_found hk]; exact h
  | none =>
    rw [openStream_new hk]
    show (gwStream s (c.flow d).server).1.Genuine
    cases (c.flow d).server with
    | id i => exact Manager.genuine_kept.getStream h (alive s) i true
    | endpoints e => exact Manager.genuine_kept.getStreamTo h e

theorem genuine_step {ev : Ev} (h : s.mgr.Genuine) (hi : Inv hash s) (ha : AnsweredFor s ev)
    (hs : step hash s ev = some t) : t.mgr.Genuine := by
  cases step_moved hi hs with
  | input d calls =>
    clear hs
    unfold input
    induction calls generalizing s with
    | nil => exact h
    | cons c calls ih => exact ih (genuine_api h d c) (hi.api d c) trivial
  | turn hm _ _ _ =>
    cases ev with
    | update a =>
      obtain ⟨act, -, -, rfl⟩ := hm
      exact Manager.genuine_kept.runAction h a act
    | servers a sds => exact Manager.genuine_kept.onServers h ha hm
    | serversError a => exact Manager.genuine_kept.onServersError h hm
    | serversStop a => exact Manager.genuine_kept.onServersStop h hm
    | _ => cases hm
  | tie _ _ _ _ _ _ => exact h.congr rfl rfl rfl
  | @link y st _ _ => rw [(linkUpdate_erases s y st).mgr]; exact h.setLinkState y st
  | streamUpdate _ => rw [(erases_emitUpdate s _).mgr]; exact h
  | forward _ _ _ => exact h
  | packet _ _ => exact h

theorem genuine {known : List Server} {es : List Ev} (h : exec (step hash) (init known) es = some s)
    (ha : Meets (step hash) AnsweredFor (init known) es) : s.mgr.Genuine :=
  (guarded_invariant (I := fun s => Inv hash s ∧ s.mgr.Genuine)
    (fun _ _ _ ⟨hi, hg⟩ ha hs => ⟨step_inv hi hs, genuine_step hg hi ha hs⟩)
    ⟨init_inv known, Manager.init_genuine known⟩ ha h).2

/-- Exact fan-out in every state of a run, from the servers the clients addressed. -/
theorem fanOut_always (hash : ServerEndpoints → UInt64) (known : List Server) (es : List Ev) :
    Always (step hash) (FanOut hash) (init known) es ∧
      (Meets (step hash) AnsweredFor (init known) es →
        Always (step hash) (fun s => s.mgr.Genuine) (init known) es) := by
  constructor
  · refine always_of_invariant (I := fun s => Inv hash s ∧ Told s) (fun s h => h.2.fanOut h.1) ?_
      ⟨init_inv known, init_told known⟩
    intro s ev t ⟨hi, h⟩ hs
    exact ⟨step_inv hi hs, h.step hi hs⟩
  · refine always_of_meets (I := fun s => Inv hash s ∧ s.mgr.Genuine) (fun s h => h.2) ?_
      ⟨init_inv known, Manager.init_genuine known⟩
    intro s ev t ⟨hi, h⟩ ha hs
    exact ⟨step_inv hi hs, genuine_step h hi ha hs⟩

/-! ## Streams to endpoints are not shared -/

/-- The action of `GwStream` `g`, or that stream once it is tied, holds server stream `x`. -/
def Holds (s : St) (x g : Nat) : Prop :=
  (∃ act, s.mgr.action? g = some act ∧ act.stream = some x) ∨
    ∃ k e, s.streamStore.lookup k = some e ∧ e.stream.id = g ∧ e.stream.serverStream = some x

/-- One holder for each server stream made for endpoints. -/
def Sole (s : St) : Prop :=
  ∀ x e g g', s.mgr.madeFor x = some (.endpoints e) → Holds s x g → Holds s x g' → g = g'

theorem Holds.madeFor (hi : Inv hash s) {g : Nat} (h : Holds s x g) : ∃ f, s.mgr.madeFor x = some f := by
  refine hi.alive_madeFor (alive_iff.mpr ?_)
  rcases h with ⟨act, ha, hx⟩ | ⟨k, e, hk, -, hx⟩
  · exact Or.inl ⟨g, act, ha, hx⟩
  · exact Or.inr ⟨k, e, hk, hx⟩

/-- A step that brings no new holder of a stream to endpoints keeps it. -/
theorem Sole.of (h : Sole s) (hi : Inv hash s) (hmade : ∀ y f, s.mgr.madeFor y = some f → t.mgr.madeFor y = some f)
    (hh : ∀ y e g, t.mgr.madeFor y = some (.endpoints e) → Holds t y g → Holds s y g) : Sole t := by
  intro y e g g' hy hg hg'
  have hs := hh y e g hy hg
  obtain ⟨f, hf⟩ := hs.madeFor hi
  have := hmade y f hf
  rw [hy] at this
  cases this
  exact h y e g g' hf hs (hh y e g' hy hg')

theorem Sole.turn (h : Sole s) (hi : Inv hash s) {a : Nat} {act : StreamGetAction} {m : Manager} (hm : m.Inv)
    (ht : s.mgr.Turn a act m) : Sole { s with mgr := m } := by
  refine h.of hi ht.made fun y e g hy hg => ?_
  rcases hg with ⟨act', hg, hx⟩ | hg
  · by_cases hga : g = a
    · -- an action's turn makes streams for an id only
      subst hga
      obtain ⟨r, r', -, rfl, -⟩ := ht.own act' hg
      have := (hm.acts g _ hg).2 y hx
      rw [this] at hy; cases hy
    · exact Or.inl ⟨act', by rw [← ht.other g hga]; exact hg, hx⟩
  · exact Or.inr hg

theorem Sole.tie (h : Sole s) (hi : Inv hash s) {a : Nat} {act : StreamGetAction} (ha : s.mgr.action? a = some act)
    (hid : e.stream.id = a) (hx : act.stream = some x) : Sole (tie { s with mgr := s.mgr.endAction a } k e x) := by
  refine h.of hi (fun y f hf => hf) fun y e' g hy hg => ?_
  rcases hg with ⟨act', hg, hx'⟩ | ⟨k', e₁, hg, hid', hx'⟩
  · simp only [Port.tie, Manager.action?_endAction ha] at hg
    split at hg
    · cases hg
    · exact Or.inl ⟨act', hg, hx'⟩
  · rcases lookup_insert_cases hg with ⟨rfl, rfl⟩ | ⟨-, hg⟩
    · cases hx'
      exact Or.inl ⟨act, by rw [← hid', ← ha, hid], hx⟩
    · exact Or.inr ⟨k', e₁, hg, hid', hx'⟩

theorem Sole.erases (h : Sole s) (hi : Inv hash s) (he : Erases s t) : Sole t := by
  refine h.of hi (fun y f hf => by rw [he.mgr]; exact hf) fun y e g hy hg => ?_
  rcases hg with ⟨act, hg, hx⟩ | ⟨k, e₁, hg, hid, hx⟩
  · exact Or.inl ⟨act, by rw [← he.mgr]; exact hg, hx⟩
  · exact Or.inr ⟨k, e₁, he.sub k e₁ hg, hid, hx⟩

/-- New data in a buffer changes no holder. -/
theorem Sole.setBuffer (h : Sole s) (hi : Inv hash s) (hk : s.streamStore.lookup k = some e) (b : List DataBuffer)
    (ws : List Write) (hs : List Handed) :
    Sole { s with
      streamStore := s.streamStore.insert k { e with stream := { e.stream with buffer := b } }
      writes := ws
      handed := hs } := by
  refine h.of hi (fun y f hf => hf) fun y e' g hy hg => ?_
  rcases hg with hg | ⟨k', e₁, hg, hid, hx⟩
  · exact Or.inl hg
  · rcases lookup_insert_cases hg with ⟨rfl, rfl⟩ | ⟨-, hg⟩
    · exact Or.inr ⟨k', e, hk, hid, hx⟩
    · exact Or.inr ⟨k', e₁, hg, hid, hx⟩

/-- What a new stream's action holds for endpoints is a new server stream. -/
theorem gwStream_new (hi : Inv hash s) {server : ServeKind} {act : StreamGetAction} {y : Nat} {ep : ServerEndpoints}
    (ha : (gwStream s server).1.action? s.made.length = some act) (hx : act.stream = some y)
    (hy : (gwStream s server).1.madeFor y = some (.endpoints ep)) : s.mgr.madeFor y = none := by
  obtain ⟨act', -, hm, hact, hsv, -, -⟩ := hi.gwStream server
  rw [hact, if_pos rfl] at ha
  cases ha
  have hok := hm.acts s.made.length act (by rw [hact, if_pos rfl])
  have hf := hsv.stream hok hx
  rw [hy] at hf
  cases hf
  -- the action is the one of `getStreamTo`
  have hpush := hact s.made.length
  rw [if_pos rfl] at hpush
  have hto := Manager.getStreamTo_action? s.mgr ep s.made.length
  rw [hi.length, if_pos rfl] at hto
  have e : StreamGetAction.existing (some s.mgr.streams.length) = act := Option.some.inj (hto.symm.trans hpush)
  rw [← e] at hx
  cases hn : s.mgr.madeFor y with
  | none => rfl
  | some f => exact absurd (Option.some.inj hx).symm (Manager.madeFor_ne_length hn)

/-- A holder after a stream was opened: the new stream's action, or one from before. -/
theorem holds_openStream (hi : Inv hash s) {f : Flow} (hk : s.streamStore.lookup (f.key hash) = none) {y g : Nat}
    (h : Holds (openStream hash s f) y g) :
    (g = s.made.length ∧ ∃ act, (gwStream s f.server).1.action? g = some act ∧ act.stream = some y) ∨ Holds s y g := by
  obtain ⟨act, hg, -, hact, -, -, -⟩ := hi.gwStream f.server
  rw [openStream_new hk, hg] at h
  rcases h with ⟨act', ha, hx⟩ | ⟨k, e, hl, hid, hx⟩
  · by_cases hne : g = s.made.length
    · exact Or.inl ⟨hne, act', ha, hx⟩
    · rw [hact, if_neg hne] at ha
      exact Or.inr (Or.inl ⟨act', ha, hx⟩)
  · rcases lookup_insert_cases hl with ⟨rfl, rfl⟩ | ⟨-, hl⟩
    · cases hx
    · exact Or.inr (Or.inr ⟨k, e, hl, hid, hx⟩)

theorem Sole.openStream (h : Sole s) (hi : Inv hash s) (f : Flow) : Sole (openStream hash s f) := by
  cases hk : s.streamStore.lookup (f.key hash) with
  | some e => rw [openStream_found hk]; exact h
  | none =>
    intro y e g g' hy hg hg'
    have hm : (Port.openStream hash s f).mgr = (gwStream s f.server).1 := by rw [openStream_new hk]
    rw [hm] at hy
    have hmade : ∀ y f', s.mgr.madeFor y = some f' → (gwStream s f.server).1.madeFor y = some f' := by
      obtain ⟨act, -, -, -, -, -, hmade⟩ := hi.gwStream f.server
      exact hmade
    -- a holder from before and the new action hold different streams
    have apart : ∀ g', (∃ act, (gwStream s f.server).1.action? s.made.length = some act ∧ act.stream = some y) →
        ¬ Holds s y g' := by
      intro g' ⟨act, ha, hx⟩ hg'
      obtain ⟨f', hf⟩ := hg'.madeFor hi
      rw [gwStream_new hi ha hx hy] at hf
      cases hf
    rcases holds_openStream hi hk hg with ⟨rfl, hnew⟩ | hold
    · rcases holds_openStream hi hk hg' with ⟨rfl, -⟩ | hold'
      · rfl
      · exact absurd hold' (apart g' hnew)
    · rcases holds_openStream hi hk hg' with ⟨rfl, hnew⟩ | hold'
      · exact absurd hold (apart g hnew)
      · obtain ⟨f', hf⟩ := hold.madeFor hi
        have hf' := hmade y f' hf
        rw [hy] at hf'
        cases hf'
        exact h y e g g' hf hold hold'

theorem Sole.moved {ev : Ev} (h : Sole s) (hi : Inv hash s) (hm : Moved hash s ev t) : Sole t := by
  cases hm with
  | input d calls =>
    unfold input
    induction calls generalizing s with
    | nil => exact h
    | cons c calls ih =>
      refine ih ?_ (hi.api d c)
      obtain ⟨e, he, -⟩ := openStream_lookup hash s (c.flow d)
      rw [api, write_stored he c.data]
      exact (h.openStream hi _).setBuffer (hi.openStream _) he _ _ _
  | turn _ _ hm ht => exact h.turn hi hm ht
  | tie ha _ hid _ hx _ => exact h.tie hi ha hid hx
  | @link y st _ _ =>
    have hset : Sole { s with mgr := s.mgr.setLinkState y st } := by
      refine h.of hi (fun z f hf => ?_) fun z e g _ hg => hg
      show (s.mgr.setLinkState y st).madeFor z = _
      rw [Manager.madeFor_setLinkState]; exact hf
    exact hset.erases (hi.setLinkState y st) (linkUpdate_erases s y st)
  | streamUpdate _ => exact h.erases hi (erases_emitUpdate s _)
  | forward _ hk _ => exact h.setBuffer hi hk _ _ _
  | packet _ _ => exact h

/-- A server stream made for endpoints has one recipient at most. -/
theorem Sole.recipients (h : Sole s) (hi : Inv hash s) {ep : ServerEndpoints}
    (hx : s.mgr.madeFor x = some (.endpoints ep)) : (recipients s x).length ≤ 1 := by
  have hall : ∀ k ∈ Port.recipients s x, ∀ k' ∈ Port.recipients s x, k = k' := by
    intro k hk k' hk'
    obtain ⟨e, hl, he⟩ := mem_recipients.mp hk
    obtain ⟨e', hl', he'⟩ := mem_recipients.mp hk'
    have hid := h x ep e.stream.id e'.stream.id hx (Or.inr ⟨k, e, hl, rfl, he⟩) (Or.inr ⟨k', e', hl', rfl, he'⟩)
    exact hi.key_unique hl hl' hid
  cases hr : Port.recipients s x with
  | nil => exact Nat.zero_le 1
  | cons k l =>
    rw [hr] at hall
    have hn := recipients_nodup s x
    rw [hr] at hn
    exact (sublist_singleton hn fun k' hk' => hall k' hk' k List.mem_cons_self).length_le

/-- A packet is emitted for the clients whose stored stream is tied to its server stream,
    each of them once and none else; they have called for its server, and there is one of
    them at most when the server was given by endpoints. -/
def Isolated (hash : ServerEndpoints → UInt64) (s : St) : Prop :=
  ∀ x d t, step hash s (.packet x d) = some t →
    ∃ l : List Output, t.output = s.output ++ l.map (x, ·) ∧ (l.map fun o => (o.deviceId, o.call.clientId)).Nodup ∧
      (∀ o, o ∈ l ↔ ∃ k e, s.streamStore.lookup k = some e ∧ e.stream.serverStream = some x ∧ o = reply k d) ∧
      (∀ o ∈ l, o.call.data = d ∧ Addressed s x o) ∧
      ((∃ ep, s.mgr.madeFor x = some (.endpoints ep)) → l.length ≤ 1)

theorem Told.isolated (h : Told s) (hi : Inv hash s) (hs : Sole s) : Isolated hash s := by
  intro x d t ht
  have hperm := packetOutput_perm hi x d
  simp only [Port.step] at ht
  split at ht
  · cases ht
    refine ⟨packetOutput s x d, rfl, ?_, fun o => ?_, fun o ho => ?_, ?_⟩
    · refine (hperm.map _).nodup_iff.mpr ?_
      rw [List.map_map]
      exact (h.fanOut hi).once x
    · rw [mem_packetOutput hi]
      constructor
      · rintro ⟨k, hk, rfl⟩
        obtain ⟨e, hl, hx⟩ := mem_recipients.mp hk
        exact ⟨k, e, hl, hx, rfl⟩
      · rintro ⟨k, e, hl, hx, rfl⟩
        exact ⟨k, mem_recipients.mpr ⟨e, hl, hx⟩, rfl⟩
    · obtain ⟨k, hk, rfl⟩ := (mem_packetOutput hi).mp ho
      exact ⟨rfl, h.recipient hi hk d⟩
    · rintro ⟨ep, hx⟩
      rw [hperm.length_eq, List.length_map]
      exact hs.recipients hi hx
  · cases ht

theorem isolated_always (hash : ServerEndpoints → UInt64) (known : List Server) (es : List Ev) :
    Always (step hash) (Isolated hash) (init known) es := by
  refine always_of_invariant (I := fun s => Inv hash s ∧ Told s ∧ Sole s)
    (fun s h => h.2.1.isolated h.1 h.2.2) ?_ ⟨init_inv known, init_told known, ?_⟩
  · intro s ev t ⟨hi, h, hs⟩ ht
    exact ⟨step_inv hi ht, h.step hi ht, hs.moved hi (step_moved hi ht)⟩
  · intro y e g g' hy
    simp [init, Manager.init, Manager.madeFor] at hy

/-- Two clients share the cached stream of id 5, and one packet is emitted for both. -/
theorem shared_reply :
    let es := [Ev.input 1 [.toServerId 1 5 []], .update 0, .update 0, .input 1 [.toServerId 2 5 []], .update 1]
    ¬ Always (step fun _ => 0) (fun s => ∀ x d t, step (fun _ => 0) s (.packet x d) = some t →
      t.output.length ≤ s.output.length + 1) (init [⟨5, []⟩]) es := by
  intro es h
  have hlast := always_exec h rfl 0 [7] _ rfl
  revert hlast
  decide

end AetherGateway.Port
