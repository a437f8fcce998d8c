/-
  AetherGateway.Lora.PowerSave — what `SetPowerSaveParam` reports (see
  `AetherGateway.Lora.Operations`).

  A null action stands for nothing to do in `EnterAtMode` and for a setting without a
  command in `SetLoraGatewayBandWidth`; aether gives both one meaning.
  - `Running.moves`: what a step does to the pipeline of the operation.
  - `truthful_iff`: for either meaning, when every report of a run is true.
  - `untruthful`: the report that is false when null stages are passed over, and the one
    when they fail.
-/

import AetherGateway.Lora.Operations

namespace AetherGateway.Lora

open AetherGateway.SerialQueue AetherGateway.Runs

variable {ae : Aether} {s t : St} {d : Driver} {op : Nat} {psp : LoraGatewayPowerSaveParam}

/-! ## Reports -/

/-- The six settings; a helper that returns a null action sends nothing. -/
def settings (psp : LoraGatewayPowerSaveParam) : List Stage :=
  [setLoraGatewayMode psp.loraGatewayMode, setLoraGatewayLevel psp.loraGatewayLevel,
    setLoraGatewayPower psp.loraGatewayPower, setLoraGatewayBandWidth psp.loraGatewayBandWidth,
    setLoraGatewayCodingRate psp.loraGatewayCodingRate,
    setLoraGatewaySpreadingFactor psp.loraGatewaySpreadingFactor]

def Configured (d : Driver) (op : Nat) (psp : LoraGatewayPowerSaveParam) : Prop :=
  ∀ x ∈ settings psp, ∃ command, x = .request command ∧ (⟨command, [waitOk]⟩, Ended.result) ∈ answersOf d op

def Answered (d : Driver) (op : Nat) : Prop := ∀ p ∈ answersOf d op, p.2 = .result

/-- Success says that all was answered and acknowledged, failure that some request was not
    answered as expected or that some setting has no command. -/
structure Truthful (d : Driver) (op : Nat) (psp : LoraGatewayPowerSaveParam) : Prop where
  success : .notify ∈ told d op ↔ Answered d op ∧ Configured d op psp
  failure : .failed ∈ told d op → ¬ Answered d op ∨ .null ∈ settings psp

/-- Every `SetPowerSaveParam` whose stage the queue has finished was reported truthfully. -/
def ReportsTruthfully (h : Logged) : Prop :=
  ∀ op psp, h.calls[op]? = some (.setPowerSaveParam psp) → Finished h.s op → Truthful h.s.d op psp

/-- The pipeline of a `SetPowerSaveParam` comes to its end with a bandwidth of 125K only,
    and, where null stages fail, begins with it out of AT mode only. -/
def Sends (ae : Aether) (h : Logged) : Ev → Prop
  | .run => ∀ k op psp, h.s.cur = some k → k.handler = .operation op → h.calls[op]? = some (.setPowerSaveParam psp) →
    k.act = none → (k.rest = [] → psp.loraGatewayBandWidth = .bandWidth125K) ∧
      (k.ran = [] → ae.nullPasses = false → psp.loraGatewayBandWidth = .bandWidth125K → h.s.d.atMode = false)
  | _ => True

/-! ## Stages -/

theorem setPowerSaveParam_eq (psp : LoraGatewayPowerSaveParam) :
    setPowerSaveParam psp = .enterAtMode :: (settings psp ++ [.exitAtMode]) := rfl

theorem settings_mem {x : Stage} (hx : x ∈ settings psp) :
    (∃ command, x = .request command) ∨ x = .null ∧ psp.loraGatewayBandWidth ≠ .bandWidth125K := by
  simp only [settings, List.mem_cons, List.not_mem_nil, or_false] at hx
  rcases hx with rfl | rfl | rfl | rfl | rfl | rfl
  · exact Or.inl ⟨_, rfl⟩
  · exact Or.inl ⟨_, rfl⟩
  · exact Or.inl ⟨_, rfl⟩
  · unfold setLoraGatewayBandWidth
    by_cases hb : psp.loraGatewayBandWidth ≠ .bandWidth125K
    · exact Or.inr ⟨if_pos hb, hb⟩
    · exact Or.inl ⟨_, if_neg hb⟩
  · exact Or.inl ⟨_, rfl⟩
  · exact Or.inl ⟨_, rfl⟩

theorem settings_null : .null ∈ settings psp ↔ psp.loraGatewayBandWidth ≠ .bandWidth125K := by
  refine ⟨fun hx => ?_, fun hb => ?_⟩
  · rcases settings_mem hx with ⟨command, h⟩ | ⟨-, hb⟩
    · cases h
    · exact hb
  · have hnull : setLoraGatewayBandWidth psp.loraGatewayBandWidth = .null := if_pos hb
    simp [settings, hnull]

/-- The stages of the pipeline; a null one is a bandwidth without a command. -/
theorem setPowerSaveParam_mem {x : Stage} (hx : x ∈ setPowerSaveParam psp) :
    x = .enterAtMode ∨ x = .exitAtMode ∨ (∃ command, x = .request command) ∨
      x = .null ∧ psp.loraGatewayBandWidth ≠ .bandWidth125K := by
  rw [setPowerSaveParam_eq] at hx
  rcases List.mem_cons.mp hx with rfl | hx
  · exact Or.inl rfl
  rcases List.mem_append.mp hx with hx | hx
  · exact Or.inr (Or.inr (settings_mem hx))
  · exact Or.inr (Or.inl (List.mem_singleton.mp hx))

theorem Configured.bandWidth (h : Configured d op psp) : psp.loraGatewayBandWidth = .bandWidth125K := by
  by_contra hb
  obtain ⟨command, hc, -⟩ := h (setLoraGatewayBandWidth psp.loraGatewayBandWidth) (by simp [settings])
  unfold setLoraGatewayBandWidth at hc
  rw [if_pos hb] at hc
  cases hc

/-- `enterAtMode` is the first stage only. -/
theorem setPowerSaveParam_enter {ran rest : List Stage} (h : ran ++ .enterAtMode :: rest = setPowerSaveParam psp) :
    ran = [] := by
  cases ran with
  | nil => rfl
  | cons x ran =>
    rw [setPowerSaveParam_eq, List.cons_append, List.cons.injEq] at h
    have hm : Stage.enterAtMode ∈ settings psp ++ [.exitAtMode] := by rw [← h.2]; simp
    rcases List.mem_append.mp hm with hm | hm
    · rcases settings_mem hm with ⟨command, hc⟩ | ⟨hc, -⟩ <;> cases hc
    · cases List.mem_singleton.mp hm

/-! ## The pipeline -/

/-- The head is the pipeline of the operation: so far all was answered, each command that
    has started was acknowledged or is outstanding. -/
structure Running (d : Driver) (op : Nat) (psp : LoraGatewayPowerSaveParam) (k : Cur Handler Stage Act) : Prop where
  handler : k.handler = .operation op
  stages : k.ran ++ k.rest = setPowerSaveParam psp
  act : ∀ a, k.act = some a → ∃ r, a = .request r
  answered : Answered d op
  acked : ∀ command, .request command ∈ k.ran → (⟨command, [waitOk]⟩, Ended.result) ∈ answersOf d op ∨
    k.act = some (.request ⟨command, [waitOk]⟩)

theorem answered_actEnded {k : Handler} {r : AtRequest} {o : Ended} (hk : k = .operation op) :
    answersOf (actEnded d k (.request r) o) op = answersOf d op ++ [(r, o)] := by
  rw [answersOf_actEnded, hk]
  simp [Handler.op?, Act.request?]

theorem told_ended {k : Handler} {o : Ended} (hk : k = .operation op) (ht : told d op = []) :
    told (closed d k o) op = [endReport o] := by
  rw [told_closed, ht, hk]
  simp [Handler.op?]

/-- A pipeline that ends in success. -/
theorem truthful_success (ht : told d op = [.notify]) (ha : Answered d op) (hc : Configured d op psp) :
    Truthful d op psp where
  success := iff_of_true (by rw [ht]; exact List.mem_singleton_self _) ⟨ha, hc⟩
  failure hf := by rw [ht] at hf; cases List.mem_singleton.mp hf

/-- A pipeline that fails at an answer, or at a null stage for want of a command. -/
theorem truthful_failure (ht : told d op = [.failed]) (hf : ¬ Answered d op ∨ .null ∈ settings psp) :
    Truthful d op psp where
  success := by
    refine iff_of_false (fun hn => ?_) fun ⟨ha, hc⟩ => hf.elim (absurd ha) fun hn => settings_null.mp hn hc.bandWidth
    rw [ht] at hn
    cases List.mem_singleton.mp hn
  failure _ := hf

section
variable {k : Cur Handler Stage Act}

theorem Running.configured (hr : Running d op psp k) (ha : k.act = none) (hrest : k.rest = [])
    (hb : psp.loraGatewayBandWidth = .bandWidth125K) : Configured d op psp := by
  intro x hx
  rcases settings_mem hx with ⟨command, rfl⟩ | ⟨-, hne⟩
  · refine ⟨command, rfl, ?_⟩
    have hran : .request command ∈ k.ran := by
      have hst := hr.stages
      rw [hrest, List.append_nil] at hst
      rw [hst, setPowerSaveParam_eq]
      simp [hx]
    rcases hr.acked command hran with h | h
    · exact h
    · cases ha.symm.trans h
  · exact absurd hb hne

/-- A stage starts that is waited for or passed over. -/
theorem Running.starts {x : Stage} {rest : List Stage} {d' : Driver} {jobs : List Job} {r : Started Act}
    {act : Option Act} (hr : Running d op psp k) (ha : k.act = none) (hrest : k.rest = x :: rest)
    (hs : startStage d x = (d', jobs, r)) (hact : ∀ a, act = some a ↔ r = .wait a) :
    Running d' op psp ⟨k.handler, k.ran ++ [x], rest, act⟩ := by
  have hst := startStage_starts hs
  have hx : x ∈ setPowerSaveParam psp := by rw [← hr.stages, hrest]; simp
  have hans : answersOf d' op = answersOf d op := by unfold answersOf; rw [hst.answers]
  refine ⟨hr.handler, ?_, fun a h => ?_, fun p hp => hr.answered p (by rw [← hans]; exact hp), fun command hm => ?_⟩
  · rw [← hr.stages, hrest]
    exact (List.append_cons ..).symm
  · cases h
    have hw := (hact a).mp rfl
    subst hw
    rcases setPowerSaveParam_mem hx with rfl | rfl | ⟨command, rfl⟩ | ⟨rfl, -⟩
    · cases hst; exact ⟨_, rfl⟩
    · cases hst; exact ⟨_, rfl⟩
    · cases hst; exact ⟨_, rfl⟩
    · cases hst
  · rw [hans]
    rcases List.mem_append.mp hm with hm | hm
    · rcases hr.acked command hm with h | h
      · exact Or.inl h
      · cases ha.symm.trans h
    · cases List.mem_singleton.mp hm
      refine Or.inr ?_
      cases hst
      exact (hact _).mpr rfl

/-- A null stage fails the pipeline: it is `enterAtMode` in AT mode, or a setting without a command. -/
theorem Running.nullFails {x : Stage} {rest : List Stage} {d' : Driver} {jobs : List Job} (hr : Running d op psp k)
    (hshape : Shaped d k) (hrest : k.rest = x :: rest) (hs : startStage d x = (d', jobs, .null)) :
    k.ran = [] ∧ d.atMode = true ∨ psp.loraGatewayBandWidth ≠ .bandWidth125K := by
  have hst := startStage_starts hs
  have hstages := hr.stages
  rw [hrest] at hstages
  have hx : x ∈ setPowerSaveParam psp := by rw [← hstages]; simp
  rcases setPowerSaveParam_mem hx with rfl | rfl | ⟨command, rfl⟩ | ⟨rfl, hb⟩
  · cases hst with
    | entered h => exact Or.inl ⟨setPowerSaveParam_enter hstages, h⟩
  · -- the flag is set before `exitAtMode`
    cases hst with
    | exited h =>
      have henter : .enterAtMode ∈ k.ran := by
        cases hran : k.ran with
        | nil => rw [hran] at hstages; cases hstages
        | cons y ran =>
          rw [hran, setPowerSaveParam_eq, List.cons_append, List.cons.injEq] at hstages
          rw [hstages.1]
          exact List.mem_cons_self
      obtain ⟨o, hbr⟩ := hshape.bracketed
      have hflag := hshape.flag henter (hbr.once (by rw [hrest]; exact List.mem_cons_self))
      cases h.symm.trans hflag
  · cases hst
  · exact Or.inr hb

theorem Running.moves {e : Option Ended} (hm : Moves (machine ae) s e t) (hc : s.cur = some k)
    (hr : Running s.d op psp k) (hshape : Shaped s.d k) (ht : told s.d op = []) (hout : ∀ o, e = some o → o ≠ .stop)
    (hg : k.act = none → (k.rest = [] → psp.loraGatewayBandWidth = .bandWidth125K) ∧
      (k.ran = [] → ae.nullPasses = false → psp.loraGatewayBandWidth = .bandWidth125K → s.d.atMode = false)) :
    (∃ k', t.cur = some k' ∧ Running t.d op psp k') ∨ t.cur = none ∧ Truthful t.d op psp := by
  have untold : ∀ {x : Stage} {rest : List Stage} {d' : Driver} {jobs : List Job} {r : Started Act},
      k.rest = x :: rest → startStage s.d x = (d', jobs, r) → told d' op = [] ∧ answersOf d' op = answersOf s.d op := by
    intro x rest d' jobs r hrest hs
    have hst := startStage_starts hs
    have hmem : x ∈ setPowerSaveParam psp := by rw [← hr.stages, hrest]; simp
    have hx : x.op? = none := by
      rcases setPowerSaveParam_mem hmem with rfl | rfl | ⟨command, rfl⟩ | ⟨rfl, -⟩ <;> rfl
    exact ⟨(hst.told (by rw [hx]; simp)).trans ht, by unfold answersOf; rw [hst.answers]⟩
  have request : ∀ {a : Act}, k.act = some a → ∀ o, told (actEnded s.d k.handler a o) op = [] := by
    intro a ha o
    obtain ⟨r, rfl⟩ := hr.act a ha
    exact (told_actEnded (by simp [Act.op?])).trans ht
  cases hm with
  | skip hc' _ _ => cases hc.symm.trans hc'
  | opened hc' _ _ => cases hc.symm.trans hc'
  | finished hc' ha hrest =>
    cases hc.symm.trans hc'
    have hans : answersOf ((machine ae).closed s.d k.handler .result) op = answersOf s.d op := answersOf_closed _ _ _ _
    refine Or.inr ⟨rfl, truthful_success (told_ended hr.handler ht) (fun p hp => ?_) fun x hx => ?_⟩
    · exact hr.answered p (by rw [← hans]; exact hp)
    · rw [hans]
      exact hr.configured ha hrest ((hg ha).1 hrest) x hx
  | waits hc' ha hrest hs =>
    cases hc.symm.trans hc'
    exact Or.inl ⟨_, rfl, hr.starts ha hrest hs fun a => by simp⟩
  | passed hc' ha hrest hs hnull =>
    cases hc.symm.trans hc'
    refine Or.inl ⟨_, rfl, hr.starts ha hrest hs fun a => ?_⟩
    rcases hnull with rfl | ⟨rfl, -⟩ <;> simp
  | nullFailed hc' ha hrest hs hnull =>
    cases hc.symm.trans hc'
    have hun := (untold hrest hs).1
    refine Or.inr ⟨rfl, truthful_failure (told_ended hr.handler hun) (Or.inr (settings_null.mpr fun hb => ?_))⟩
    rcases hr.nullFails hshape hrest hs with ⟨hran, hat⟩ | hb'
    · rw [(hg ha).2 hran hnull hb] at hat
      cases hat
    · exact hb' hb
  | actResult hc' ha he =>
    cases hc.symm.trans hc'
    obtain ⟨r, rfl⟩ := hr.act _ ha
    have hans : answersOf ((machine ae).ended s.d k.handler (.request r) .result) op =
        answersOf s.d op ++ [(r, .result)] := answered_actEnded hr.handler
    refine Or.inl ⟨_, rfl, hr.handler, hr.stages, fun a h => (by cases h), fun p hp => ?_, fun command hm => Or.inl ?_⟩
    · rw [hans] at hp
      rcases List.mem_append.mp hp with hp | hp
      · exact hr.answered p hp
      · rw [List.mem_singleton.mp hp]
    · rw [hans]
      rcases hr.acked command hm with h | h
      · exact List.mem_append_left _ h
      · cases ha.symm.trans h
        exact List.mem_append_right _ (List.mem_singleton_self _)
  | @actFailed _ a e o hc' ha he ho =>
    cases hc.symm.trans hc'
    obtain ⟨r, rfl⟩ := hr.act _ ha
    have ho : o = .error := by
      cases e with
      | none => cases he
      | some o' =>
        cases he
        cases o with
        | result => exact absurd rfl ho
        | error => rfl
        | stop => exact absurd rfl (hout _ rfl)
    subst ho
    refine Or.inr ⟨rfl, truthful_failure (told_ended hr.handler (request ha _)) (Or.inl fun hans => ?_)⟩
    have hm : (r, Ended.error) ∈
        answersOf (closed (actEnded s.d k.handler (.request r) .error) k.handler .error) op := by
      rw [answersOf_closed, answered_actEnded hr.handler]
      exact List.mem_append_right _ (List.mem_singleton_self _)
    cases hans _ hm

theorem Truthful.congr {d' : Driver} (h : Truthful d op psp) (ht : told d' op = told d op)
    (ha : answersOf d' op = answersOf d op) : Truthful d' op psp := by
  obtain ⟨hs, hf⟩ := h
  unfold Answered Configured at hs
  unfold Answered at hf
  refine ⟨?_, ?_⟩
  · unfold Answered Configured
    rw [ht, ha]
    exact hs
  · unfold Answered
    rw [ht, ha]
    exact hf

end

/-! ## Every run -/

structure PowerSave (h : Logged) : Prop where
  sound : Sound h
  shaped : ∀ k, h.s.cur = some k → Shaped h.s.d k
  running : ∀ op psp k, h.calls[op]? = some (.setPowerSaveParam psp) → h.s.cur = some k → k.handler = .operation op →
    Running h.s.d op psp k
  done : ReportsTruthfully h

theorem construct_powerSave (i : LoraGatewayInit) : PowerSave (.construct i) where
  sound := construct_sound i
  shaped k hk := by cases hk
  running op psp k hc := by cases hc
  done op psp hc := by cases hc

section
variable {h h' : Logged} {ev : Ev} {k : Cur Handler Stage Act}

/-- A step with the pipeline of the operation at the head. -/
theorem PowerSave.head (hh : PowerSave h) (hg : Sends ae h ev) (hs : h.step ae ev = some h')
    (hcall : h.calls[op]? = some (.setPowerSaveParam psp)) (hc : h.s.cur = some k) (hk : k.handler = .operation op) :
    (∃ k', h'.s.cur = some k' ∧ Running h'.s.d op psp k') ∨ h'.s.cur = none ∧ Truthful h'.s.d op psp := by
  have ht := (Logged.step_some hs).1
  have hr := hh.running op psp k hcall hc hk
  rcases step_split ht with ⟨e, hm, hrun, hout⟩ | hb
  · obtain ⟨-, -, htold⟩ := (hh.sound.phase op _ hcall).pipeline hc hk
    refine hr.moves hm hc (hh.shaped k hc) htold (fun o ho => (hout o ho).1) fun ha => ?_
    cases e with
    | none =>
      cases hrun rfl
      exact hg k op psp hc hk hcall ha
    | some o =>
      obtain ⟨-, r, hout⟩ := hout o rfl
      obtain ⟨k', hc', ha'⟩ := outstanding_some hout
      cases hc.symm.trans hc'
      cases ha.symm.trans ha'
  · refine Or.inl ⟨k, hb.cur.trans hc, ?_⟩
    rw [hb.d]
    exact ⟨hr.handler, hr.stages, hr.act, hr.answered, hr.acked⟩

/-- The queue comes to the stage of the operation. -/
theorem PowerSave.opens (hh : PowerSave h) (hs : h.step ae ev = some h')
    (hcall : h.calls[op]? = some (.setPowerSaveParam psp)) (hc : h'.s.cur = some k) (hk : k.handler = .operation op)
    (hn : ∀ k, h.s.cur = some k → k.handler ≠ .operation op) : Running h'.s.d op psp k := by
  have ht := (Logged.step_some hs).1
  rcases step_split ht with ⟨e, hm, -, -⟩ | hb
  · refine hm.head (P := fun d k => k.handler = .operation op → Running d op psp k)
      (fun j queue k stages hc hq hp hk => ?_) (fun k x rest d jobs r act hc _ _ _ _ hk => (hn k hc hk).elim)
      (fun k a hc _ _ hk => (hn k hc hk).elim) k hc hk
    have hk : k = .operation op := hk
    subst hk
    have hj := (pipeline_bracketed hp).2 op rfl
    cases j with
    | operation op' c =>
      cases hj
      cases hcall.symm.trans (hh.sound.queue op c (by rw [hq]; exact List.mem_cons_self))
      cases hp
      obtain ⟨-, -, hans⟩ := (hh.sound.phase op _ hcall).front hc hq
      refine ⟨rfl, rfl, fun a ha => (by cases ha), fun p hp => ?_, fun command hm => (by cases hm)⟩
      rw [hans] at hp
      cases hp
    | _ => cases hj
  · exact absurd hk (hn k (by rw [← hb.cur]; exact hc))

theorem PowerSave.step (hh : PowerSave h) (hg : Sends ae h ev) (hs : h.step ae ev = some h') : PowerSave h' := by
  have ht := (Logged.step_some hs).1
  refine ⟨step_sound hs hh.sound, step_shaped ht hh.shaped, fun op psp k hcall hc hk => ?_, fun op psp hcall hf => ?_⟩
  · by_cases hold : h.calls[op]? = some (.setPowerSaveParam psp)
    · by_cases hhead : ∃ k, h.s.cur = some k ∧ k.handler = .operation op
      · obtain ⟨k₀, hc₀, hk₀⟩ := hhead
        rcases hh.head hg hs hold hc₀ hk₀ with ⟨k', hc', hr⟩ | ⟨hc', -⟩
        · cases hc.symm.trans hc'; exact hr
        · cases hc.symm.trans hc'
      · exact hh.opens hs hold hc hk fun k hc hk => hhead ⟨k, hc, hk⟩
    · -- the object was just handed out
      obtain ⟨rfl, -⟩ := hh.sound.added hs hcall hold
      obtain ⟨hun, ha, -, -⟩ := hh.sound.fresh h.s.d.operations (Nat.le_refl _)
      exact absurd (Or.inl (by rw [hk]; rfl)) (away_step ht ha hun k hc)
  · by_cases hold : h.calls[op]? = some (.setPowerSaveParam psp)
    · by_cases hf₀ : Finished h.s op
      · obtain ⟨htold, hans⟩ := told_step ht hf₀.2
        exact (hh.done op psp hold hf₀).congr htold hans
      · cases hh.sound.phase op _ hold with
        | queued hq _ _ _ _ _ =>
          have hnone := step_finishes ht (by rw [hq]; exact List.mem_append_right _ List.mem_cons_self) hf
          cases hnone
        | @running k hc hk _ _ _ _ =>
          rcases hh.head hg hs hold hc hk with ⟨k', hc', hr⟩ | ⟨-, hrep⟩
          · exact absurd (Or.inl (by rw [hr.handler]; rfl)) (hf.2 k' hc')
          · exact hrep
        | notifies hcall _ _ _ => cases hcall
        | notified hcall _ _ _ => cases hcall
        | opens hcall _ _ _ _ => cases hcall
        | opening hcall _ _ _ _ => cases hcall
        | done hf _ => exact absurd hf hf₀
    · obtain ⟨-, hq⟩ := hh.sound.added hs hcall hold
      exact absurd rfl (hf.1 (.operation op (.setPowerSaveParam psp)) (by rw [hq]; simp))

/-- Breaking the guard makes a report that is false. -/
theorem PowerSave.misreports (hh : PowerSave h) (hg : ¬ Sends ae h ev) :
    ∃ h', h.step ae ev = some h' ∧ ¬ ReportsTruthfully h' := by
  cases ev with
  | run =>
    simp only [Sends, Classical.not_forall] at hg
    obtain ⟨k, op, psp, hc, hk, hcall, ha, hg⟩ := hg
    have hr := hh.running op psp k hcall hc hk
    obtain ⟨-, hun, htold⟩ := (hh.sound.phase op _ hcall).pipeline hc hk
    rcases Classical.not_and_iff_not_or_not.mp hg with hg | hg
    · -- success with the bandwidth unsent
      obtain ⟨hrest, hb⟩ := Classical.not_imp.mp hg
      have hs : h.step ae .run = some _ := congrArg (Option.map _) (next_closes hc ha hrest)
      refine ⟨_, hs, fun htrue => hb ?_⟩
      have ht := htrue op psp (Logged.calls_step hs hcall) ⟨hun, fun k hk => by cases hk⟩
      have hnotify : .notify ∈ told (closed h.s.d k.handler .result) op := by
        rw [told_ended hk htold]
        exact List.mem_singleton_self _
      exact (ht.success.mp hnotify).2.bandWidth
    · -- failure for want of a stage to run
      simp only [Classical.not_imp] at hg
      obtain ⟨hran, hnull, hb, hat⟩ := hg
      have hrest : k.rest = .enterAtMode :: (settings psp ++ [.exitAtMode]) := by
        have hst := hr.stages
        rw [hran, List.nil_append] at hst
        exact hst
      have hat : h.s.d.atMode = true := eq_true_of_ne_false hat
      have hstart : startStage h.s.d .enterAtMode = (h.s.d, [], .null) := by simp [startStage, enterAtMode, hat]
      have hs : h.step ae .run = some _ := congrArg (Option.map _) (next_nullFails hc ha hrest hstart hnull)
      refine ⟨_, hs, fun htrue => ?_⟩
      have hun' : Unqueued ⟨closed h.s.d k.handler .error, h.s.queue ++ [], none⟩ op := by
        rw [List.append_nil]
        exact hun
      have ht := htrue op psp (Logged.calls_step hs hcall) ⟨hun', fun k hk => by cases hk⟩
      have hfailed : .failed ∈ told (closed h.s.d k.handler .error) op := by
        rw [told_ended hk htold]
        exact List.mem_singleton_self _
      rcases ht.failure hfailed with hn | hnull
      · exact hn fun p hp => hr.answered p (by rw [← answersOf_closed]; exact hp)
      · exact settings_null.mp hnull hb
  | _ => exact absurd trivial hg

end

/-- In a run every finished `SetPowerSaveParam` was reported truthfully exactly when none
    with another bandwidth than 125K comes to the end of its pipeline and, where null stages
    fail, none with 125K begins in AT mode. -/
theorem truthful_iff (ae : Aether) (i : LoraGatewayInit) (es : List Ev) :
    Always (Logged.step ae) ReportsTruthfully (.construct i) es ↔ Meets (Logged.step ae) (Sends ae) (.construct i) es :=
  always_iff_meets (fun _ hh => hh.done) (fun _ _ _ hh hg hs => hh.step hg hs) (fun _ _ hh hg => hh.misreports hg)
    (construct_powerSave i)

/-- `Init` fails in AT mode. Where null stages are passed over, a bandwidth of 500K is
    reported set; where they fail, the defaults are reported failed before any request. -/
theorem untruthful :
    let fails := [Ev.run, .run, .answer .expected, .run, .answer .error]
    let psp := { LoraGatewayPowerSaveParam.default with loraGatewayBandWidth := .bandWidth500K }
    let sent := [Ev.run, .answer .expected]
    (¬ Always (Logged.step ⟨true, fun flags => flags.toNat?.map UInt32.ofNat⟩) ReportsTruthfully (.construct .default)
      (.call (.setPowerSaveParam psp) :: fails ++ [.run, .run] ++ sent ++ sent ++ sent ++ [.run] ++ sent ++ sent ++ sent ++
        [.run])) ∧
    ¬ Always (Logged.step ⟨false, fun flags => flags.toNat?.map UInt32.ofNat⟩) ReportsTruthfully (.construct .default)
      (.call (.setPowerSaveParam .default) :: fails ++ [.run, .run]) := by
  intro fails psp sent
  constructor
  · intro h
    have hend : (exec (Logged.step ⟨true, fun flags => flags.toNat?.map UInt32.ofNat⟩) (.construct .default)
        (.call (.setPowerSaveParam psp) :: fails ++ [.run, .run] ++ sent ++ sent ++ sent ++ [.run] ++ sent ++ sent ++
          sent ++ [.run])).map (fun h => (told h.s.d 0, h.calls[0]?, h.s.queue.isEmpty, h.s.cur.isNone)) =
        some ([.notify], some (.setPowerSaveParam psp), true, true) := by decide +kernel
    obtain ⟨t, ht, hsee⟩ := Option.map_eq_some_iff.mp hend
    simp only [Prod.mk.injEq, List.isEmpty_iff, Option.isNone_iff_eq_none] at hsee
    obtain ⟨htold, hcall, hq, hc⟩ := hsee
    have hf : Finished t.s 0 := ⟨fun j hj => (by rw [hq] at hj; cases hj), fun k hk => by rw [hc] at hk; cases hk⟩
    have htrue := always_exec h ht 0 psp hcall hf
    cases (htrue.success.mp (by rw [htold]; exact List.mem_cons_self)).2.bandWidth
  · intro h
    have ht := always_exec h rfl 0 .default rfl ⟨fun j hj => (by cases hj), fun k hk => by cases hk⟩
    rcases ht.failure List.mem_cons_self with hn | hnull
    · exact hn fun p hp => by cases hp
    · exact settings_null.mp hnull rfl

end AetherGateway.Lora
