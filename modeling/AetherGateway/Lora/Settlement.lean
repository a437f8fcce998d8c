/-
  AetherGateway.Lora.Settlement — what becomes of the operation objects that the driver
  hands out (see `AetherGateway.Lora.Operations`).

  - `settled_iff`: in a run every object whose stage the queue has finished was told
    exactly one end, success at the end of its own pipeline only, exactly when no stage of
    an `OpenNetwork` with a protocol other than TCP and UDP comes to its turn.
  - `unsettled_network`: such a stage.
-/

import AetherGateway.Lora.Operations

namespace AetherGateway.Lora

open AetherGateway.SerialQueue AetherGateway.Runs

variable {ae : Aether} {s t : St} {d : Driver} {op : Nat} {c : Call}

/-- Once the queue has finished its stage an object was told exactly one end. -/
def SettledAll (h : Logged) : Prop :=
  ∀ op c, h.calls[op]? = some c → Finished h.s op → Settled c (told h.s.d op)

/-- An object is told success at the end of its own pipeline only. -/
def EarnsSuccess (h : Logged) (_ : Ev) (h' : Logged) : Prop :=
  ∀ op, ∀ r ∈ told h'.s.d op, r ∉ told h.s.d op → r.success = true → AtEnd h.s op

/-- No stage of an `OpenNetwork` with a protocol other than TCP and UDP comes to its turn. -/
def Opens (h : Logged) : Ev → Prop
  | .run => h.s.cur = none → ∀ op c, h.s.queue.head? = some (.operation op c) → c.unopened = false
  | _ => True

theorem Phase.finished (h : Phase s op c) (hf : Finished s op) :
    c.network = false ∧ Settled c (told s.d op) ∨ c.unopened = true ∧ told s.d op = [] := by
  obtain ⟨hun, ha⟩ := hf
  cases h with
  | queued hq _ _ _ _ _ => exact absurd rfl (hun (.operation op c) (by rw [hq]; simp))
  | running hc hk _ _ _ _ => exact absurd (Or.inl (by rw [hk]; rfl)) (ha _ hc)
  | notifies _ hc _ _ => exact absurd (Or.inr (Or.inl ⟨.notify op, by simp, rfl⟩)) (ha _ hc)
  | notified _ hc _ _ => exact absurd (Or.inr (Or.inl ⟨.notify op, by simp, rfl⟩)) (ha _ hc)
  | @opens x _ hx hc _ _ =>
    refine absurd (Or.inr (Or.inl ⟨x, by simp, ?_⟩)) (ha _ hc)
    rcases hx with ⟨host, port, rfl⟩ | ⟨host, port, rfl⟩ <;> rfl
  | opening _ hx hc _ _ => exact absurd (Or.inr (Or.inl ⟨_, by simp, hx⟩)) (ha _ hc)
  | done _ ht => exact ht

structure Opening (h : Logged) : Prop where
  sound : Sound h
  waits : ∀ op c, h.calls[op]? = some c → c.unopened = true → .operation op c ∈ h.s.queue

theorem Opening.settled {h : Logged} (hh : Opening h) : SettledAll h := by
  intro op c hc hf
  rcases (hh.sound.phase op c hc).finished hf with ⟨-, ht⟩ | ⟨hu, -⟩
  · exact ht
  · exact absurd rfl (hf.1 _ (hh.waits op c hc hu))

theorem Opening.step {h h' : Logged} {ev : Ev} (hh : Opening h) (ho : Opens h ev) (hs : h.step ae ev = some h') :
    Opening h' := by
  refine ⟨step_sound hs hh.sound, fun op c hc hu => ?_⟩
  obtain ⟨ht, -, -⟩ := Logged.step_some hs
  by_cases hold : h.calls[op]? = some c
  · have hmem := hh.waits op c hold hu
    cases step_queues ht with
    | @took j hev hcur hq _ _ =>
      rw [hq] at hmem
      rcases List.mem_cons.mp hmem with he | hmem
      · subst hev
        have := ho hcur op c (by rw [hq, he]; rfl)
        rw [hu] at this
        cases this
      · exact hmem
    | added hq _ _ _ => rw [hq]; exact List.mem_append_left _ hmem
    | handed hq _ _ => rw [hq]; exact List.mem_append_left _ hmem
  · obtain ⟨-, hq⟩ := hh.sound.added hs hc hold
    rw [hq]
    exact List.mem_append_right _ (List.mem_singleton_self _)

/-- A stage that makes no pipeline leaves its object with nothing told. -/
theorem Opening.unsettles {h : Logged} {ev : Ev} (hh : Opening h) (ho : ¬ Opens h ev) :
    ∃ h', h.step ae ev = some h' ∧ ¬ SettledAll h' := by
  cases ev with
  | run =>
    simp only [Opens, not_forall] at ho
    obtain ⟨hcur, op, c, hhead, hu⟩ := ho
    obtain ⟨post, hq⟩ := List.head?_eq_some_iff.mp hhead
    have hcalls := hh.sound.queue op c (by rw [hq]; exact List.mem_cons_self)
    obtain ⟨hpost, htold, -⟩ := (hh.sound.phase op c hcalls).front hcur hq
    obtain ⟨host, port, rfl⟩ : ∃ host port, c = .openNetwork .other host port := by
      cases c with
      | openNetwork protocol host port => cases protocol <;> simp [Call.unopened] at hu ⊢
      | _ => simp [Call.unopened] at hu
    have hnext : next (machine ae) h.s = some ⟨h.s.d, post, none⟩ := by
      simp only [next, hcur, hq, openJob]
      rfl
    have hs : h.step ae .run = some _ := congrArg (Option.map _) hnext
    refine ⟨_, hs, fun hsettled => ?_⟩
    have hset := hsettled op _ (Logged.calls_step hs hcalls) ⟨hpost, fun k hk => by cases hk⟩
    rw [show told _ op = [] from htold] at hset
    rcases hset with ⟨_, hset⟩ | hset <;> cases hset
  | _ => exact absurd trivial ho

theorem Sound.earns {h : Logged} {ev : Ev} (hh : Sound h) :
    ∀ h', h.step ae ev = some h' → EarnsSuccess h ev h' := by
  intro h' hs op r hr hn hsucc
  obtain ⟨ht, -, -⟩ := Logged.step_some hs
  by_cases hop : op < h.s.d.operations
  · have hop' : op < h.calls.length := by rw [hh.length]; exact hop
    exact (hh.phase op _ (List.getElem?_eq_getElem hop')).success hop ht hr hn hsucc
  · rw [(told_step ht (hh.fresh op (Nat.le_of_not_lt hop)).2.1).1] at hr
    exact absurd hr hn

/-- In a run every object is told exactly one end, success for its own pipeline only,
    exactly when no stage of an `OpenNetwork` with another protocol comes to its turn. -/
theorem settled_iff (ae : Aether) (i : LoraGatewayInit) (es : List Ev) :
    Always (Logged.step ae) SettledAll (.construct i) es ∧ Along (Logged.step ae) EarnsSuccess (.construct i) es ↔
      Meets (Logged.step ae) Opens (.construct i) es := by
  have hinit : Opening (.construct i) := ⟨construct_sound i, fun op c hc => by cases hc⟩
  have hsettled : Always (Logged.step ae) SettledAll (.construct i) es ↔ Meets (Logged.step ae) Opens (.construct i) es :=
    always_iff_meets (fun h hh => hh.settled) (fun h ev h' hh ho hs => hh.step ho hs)
      (fun h ev hh ho => hh.unsettles ho) hinit
  have hearns : Along (Logged.step ae) EarnsSuccess (.construct i) es :=
    along_of_meets (C := fun _ _ => True) (fun h ev h' hh _ hs => step_sound hs hh) (fun h ev h' hh _ => hh.earns h')
      hinit.sound (meets_of_all fun _ _ _ => trivial)
  exact ⟨fun h => hsettled.mp h.1, fun h => ⟨hsettled.mpr h, hearns⟩⟩

/-- `Init` fails, then the stage of an `OpenNetwork` with another protocol is passed over. -/
theorem unsettled_network :
    let es := [Ev.call (.openNetwork .other "" 0), .run, .run, .answer .timeout, .run]
    ¬ Always (Logged.step ⟨true, fun flags => flags.toNat?.map UInt32.ofNat⟩) SettledAll (.construct .default) es := by
  intro es h
  have hs := always_exec h rfl 0 (.openNetwork .other "" 0) rfl ⟨fun j hj => (by cases hj), fun k hk => by cases hk⟩
  rcases hs with ⟨_, hs⟩ | hs <;> cases hs

end AetherGateway.Lora
