/-
  AetherGateway.Lora.AtMode — the driver's `at_mode_` and the module's mode.

  The driver flips its flag when it writes a "+++"; the module switches when it
  acknowledges it. Between the two the flag is ahead of the module (`Tracked`).
  - `coherent_iff`: flag and module agree throughout a run, and every AT+ command finds
    the module in AT mode, exactly when every "+++" is acknowledged.
  - `failed_inside`: a command that fails between `EnterAtMode` and `ExitAtMode` ends the
    operation in AT mode, with no "+++" written.
-/

import AetherGateway.Lora.Invariant

namespace AetherGateway.Lora

open AetherGateway.SerialQueue AetherGateway.Runs

variable {ae : Aether} {s t : St} {d : Driver}

/-! ## Coherence -/

/-- With no request outstanding the flag is the module's mode; an AT+ command is written
    in AT mode only. -/
def Coherent (s : St) : Prop :=
  (outstanding s = none → s.d.atMode = s.d.moduleAtMode) ∧
    ∀ w ∈ s.d.wire, atPlus w.request.command = true → w.moduleAtMode = true

def Act.switches : Act → Bool
  | .request r => r.command == "+++"
  | _ => false

def switching (s : St) : Bool := (waiting s).any Act.switches

/-- No "+++" fails or times out. -/
def Acknowledged (s : St) : Ev → Prop
  | .answer a => switching s = true → a = .expected
  | _ => True

/-- The flag is ahead of the module while a "+++" is outstanding. -/
structure Tracked (s : St) : Prop where
  shaped : ∀ c, s.cur = some c → Shaped s.d c
  mode : s.d.moduleAtMode = (s.d.atMode ^^ switching s)
  wire : ∀ w ∈ s.d.wire, atPlus w.request.command = true → w.moduleAtMode = true

theorem construct_tracked (i : LoraGatewayInit) : Tracked (construct i) where
  shaped c h := by cases h
  mode := rfl
  wire w hw := by cases hw

theorem Tracked.coherent (h : Tracked s) : Coherent s := by
  refine ⟨fun hout => ?_, h.wire⟩
  have hsw : switching s = false := by
    unfold switching
    unfold outstanding at hout
    cases hw : waiting s with
    | none => rfl
    | some a =>
      rw [hw] at hout
      cases a with
      | request r => cases hout
      | operation op => rfl
      | openNetwork op a => rfl
  rw [h.mode, hsw, Bool.xor_false]

/-! ## Stages -/

def Started.switches : Started Act → Bool
  | .wait a => a.switches
  | _ => false

theorem atPlus_switch : atPlus "+++" = false := by decide

theorem pollCommand (h : String) : "#XPOLL=0" ++ h ≠ "+++" ∧ atPlus ("#XPOLL=0" ++ h) = false := by
  have hl : ("#XPOLL=0" ++ h).toList = '#' :: ("XPOLL=0".toList ++ h.toList) := by rw [String.toList_append]; rfl
  refine ⟨fun e => ?_, ?_⟩
  · have hc : "+++".toList.head? = some '#' := by rw [← e, hl]; rfl
    exact absurd hc (by decide)
  · rw [atPlus, hl]
    rfl

section
variable {x : Stage} {d' : Driver} {jobs : List Job} {r : Started Act}

theorem Starts.mode (h : Starts d x (d', jobs, r)) (hd : d.moduleAtMode = d.atMode)
    (hcommand : ∀ command, x = .request command → command ≠ "+++") :
    d'.moduleAtMode = (d'.atMode ^^ Started.switches r) := by
  cases h with
  | enterAtMode h => rw [hd, h]; rfl
  | exitAtMode h => rw [hd, h]; rfl
  | request command =>
    have hne : Act.switches (.request ⟨command, [waitOk]⟩) = false := beq_eq_false_iff_ne.mpr (hcommand command rfl)
    show d.moduleAtMode = (d.atMode ^^ Act.switches (.request ⟨command, [waitOk]⟩))
    rw [hne, Bool.xor_false, hd]
  | poll =>
    have hne : Act.switches (.request ⟨"#XPOLL=0" ++ handles d, [waitOk]⟩) = false :=
      beq_eq_false_iff_ne.mpr (pollCommand (handles d)).1
    show d.moduleAtMode = (d.atMode ^^ Act.switches (.request ⟨"#XPOLL=0" ++ handles d, [waitOk]⟩))
    rw [hne, Bool.xor_false, hd]
  | _ => exact hd.trans (Bool.xor_false _).symm

/-- An AT+ command is written by a `request` stage, in the module's mode. -/
theorem Starts.writes (h : Starts d x (d', jobs, r)) {w : Written} (hw : w ∈ d'.wire) :
    w ∈ d.wire ∨
      w.moduleAtMode = d.moduleAtMode ∧ (atPlus w.request.command = true → ∃ command, x = .request command) := by
  have hnew : ∀ {v : Written}, v.moduleAtMode = d.moduleAtMode →
      (atPlus v.request.command = true → ∃ command, x = .request command) → w ∈ d.wire ++ [v] →
      w ∈ d.wire ∨
        w.moduleAtMode = d.moduleAtMode ∧ (atPlus w.request.command = true → ∃ command, x = .request command) := by
    intro v hm hat hw
    rcases List.mem_append.mp hw with hw | hw
    · exact Or.inl hw
    · rw [List.mem_singleton.mp hw]
      exact Or.inr ⟨hm, hat⟩
  cases h with
  | enterAtMode h => exact hnew rfl (fun h => by cases atPlus_switch.symm.trans h) hw
  | exitAtMode h => exact hnew rfl (fun h => by cases atPlus_switch.symm.trans h) hw
  | request command => exact hnew rfl (fun _ => ⟨command, rfl⟩) hw
  | poll => exact hnew rfl (fun h => by cases (pollCommand (handles d)).2.symm.trans h) hw
  | _ => exact Or.inl hw

end

/-! ## Steps -/

theorem Tracked.still (h : Tracked s) (hw : waiting s = none) : s.d.moduleAtMode = s.d.atMode := by
  rw [h.mode, switching, hw, Option.any_none, Bool.xor_false]

theorem closed_line (d : Driver) (k : Handler) (o : Ended) :
    (closed d k o).atMode = d.atMode ∧ (closed d k o).moduleAtMode = d.moduleAtMode ∧ (closed d k o).wire = d.wire :=
  ⟨closed_frame Driver.atMode (fun _ _ _ => rfl) d k o, closed_frame Driver.moduleAtMode (fun _ _ _ => rfl) d k o,
    closed_frame Driver.wire (fun _ _ _ => rfl) d k o⟩

theorem tracked_still (hs : ∀ c, s.cur = some c → Shaped s.d c) (hw : waiting s = none)
    (hm : s.d.moduleAtMode = s.d.atMode)
    (hwire : ∀ w ∈ s.d.wire, atPlus w.request.command = true → w.moduleAtMode = true) : Tracked s :=
  ⟨hs, by rw [switching, hw, Option.any_none, Bool.xor_false, hm], hwire⟩

theorem waiting_cur {c : Cur Handler Stage Act} (hc : s.cur = some c) : waiting s = c.act := by
  rw [waiting, hc, Option.bind_some]

/-- A stage starts: the mode and the wire are as they should be. -/
theorem Tracked.started {c : Cur Handler Stage Act} {x : Stage} {rest : List Stage} {d' : Driver} {jobs : List Job}
    {r : Started Act} (h : Tracked s) (hc : s.cur = some c) (ha : c.act = none) (hr : c.rest = x :: rest)
    (hs : startStage s.d x = (d', jobs, r)) :
    d'.moduleAtMode = (d'.atMode ^^ Started.switches r) ∧
      ∀ w ∈ d'.wire, atPlus w.request.command = true → w.moduleAtMode = true := by
  obtain ⟨⟨o, hb⟩, hflag⟩ := h.shaped c hc
  rw [hr] at hb
  have hmode := h.still ((waiting_cur hc).trans ha)
  refine ⟨(startStage_starts hs).mode hmode fun command hx => hb.command (by rw [hx]; simp), fun w hw hat => ?_⟩
  rcases (startStage_starts hs).writes hw with hw | ⟨hwm, hreq⟩
  · exact h.wire w hw hat
  · obtain ⟨command, rfl⟩ := hreq hat
    rw [hwm, hmode]
    exact hflag hb.inside.1 hb.inside.2

/-- An action ends; a "+++" ends with a result. -/
theorem Tracked.result {c : Cur Handler Stage Act} {a : Act} {o : Ended} (h : Tracked s) (hc : s.cur = some c)
    (ha : c.act = some a) (hg : a.switches = true → o = .result) :
    (actEnded s.d c.handler a o).moduleAtMode = (actEnded s.d c.handler a o).atMode := by
  have hm : s.d.moduleAtMode = (s.d.atMode ^^ a.switches) := by
    have hsw : switching s = a.switches := by rw [switching, waiting_cur hc, ha]; rfl
    rw [h.mode, hsw]
  cases a with
  | request r =>
    by_cases hr : r.command = "+++"
    · have hsw : Act.switches (.request r) = true := beq_iff_eq.mpr hr
      have hif : (actEnded s.d c.handler (.request r) o).moduleAtMode = !s.d.moduleAtMode := if_pos ⟨hg hsw, hr⟩
      rw [hif, hm, hsw, Bool.xor_true, Bool.not_not]
      rfl
    · have hsw : Act.switches (.request r) = false := beq_eq_false_iff_ne.mpr hr
      have hif : (actEnded s.d c.handler (.request r) o).moduleAtMode = s.d.moduleAtMode := if_neg fun h => hr h.2
      rw [hif, hm, hsw, Bool.xor_false]
      rfl
  | operation op => exact hm.trans (Bool.xor_false _)
  | openNetwork op a => cases o <;> exact hm.trans (Bool.xor_false _)

theorem moves_tracked {e : Option Ended} (h : Moves (machine ae) s e t) (hs : Tracked s)
    (hg : ∀ o, e = some o → switching s = true → o = .result) : Tracked t := by
  have hshaped := moves_shaped h hs.shaped
  -- a request ends only when the environment ends it
  have hact : ∀ {c a o}, s.cur = some c → c.act = some a → e.or ((machine ae).ready s.d a) = some o →
      a.switches = true → o = .result := by
    intro c a o hc ha he hsw
    cases e with
    | none =>
      cases a with
      | request r => cases he
      | operation op => cases hsw
      | openNetwork op a => cases hsw
    | some o' =>
      cases he
      exact hg o rfl (by rw [switching, waiting_cur hc, ha]; exact hsw)
  cases h with
  | skip hc hq hp => exact tracked_still hshaped rfl (hs.still (by rw [waiting, hc]; rfl)) hs.wire
  | opened hc hq hp => exact tracked_still hshaped rfl (hs.still (by rw [waiting, hc]; rfl)) hs.wire
  | @finished c hc ha hr =>
    obtain ⟨hat, hmod, hw⟩ := closed_line s.d c.handler .result
    refine tracked_still hshaped rfl ?_ (hw ▸ hs.wire)
    exact hmod.trans ((hs.still ((waiting_cur hc).trans ha)).trans hat.symm)
  | waits hc ha hr hst => exact ⟨hshaped, (hs.started hc ha hr hst).1, (hs.started hc ha hr hst).2⟩
  | passed hc ha hr hst hnull =>
    obtain ⟨hm, hw⟩ := hs.started hc ha hr hst
    refine tracked_still hshaped rfl ?_ hw
    rcases hnull with rfl | ⟨rfl, -⟩
    · exact hm.trans (Bool.xor_false _)
    · exact hm.trans (Bool.xor_false _)
  | @nullFailed c x rest d jobs hc ha hr hst hnull =>
    obtain ⟨hm, hw⟩ := hs.started hc ha hr hst
    obtain ⟨hat, hmod, hwire⟩ := closed_line d c.handler .error
    refine tracked_still hshaped rfl ?_ (hwire ▸ hw)
    exact hmod.trans ((hm.trans (Bool.xor_false _)).trans hat.symm)
  | @actResult c a _ hc ha he =>
    refine tracked_still hshaped rfl (hs.result hc ha fun _ => rfl) ?_
    exact actEnded_frame Driver.wire (fun _ _ _ _ => rfl) s.d c.handler a .result ▸ hs.wire
  | @actFailed c a _ o hc ha he ho =>
    obtain ⟨hat, hmod, hwire⟩ := closed_line (actEnded s.d c.handler a o) c.handler o
    have hended := actEnded_frame Driver.wire (fun _ _ _ _ => rfl) s.d c.handler a o
    refine tracked_still hshaped rfl ?_ (hwire ▸ hended ▸ hs.wire)
    exact hmod.trans ((hs.result hc ha fun hsw => hact hc ha he hsw).trans hat.symm)

theorem step_tracked {ev : Ev} (h : step ae s ev = some t) (hs : Tracked s) (hg : Acknowledged s ev) : Tracked t := by
  cases step_cases h with
  | call c =>
    obtain ⟨hat, hmod, hwire, -⟩ := call_frame s.d c
    refine ⟨step_shaped h hs.shaped, ?_, hwire ▸ hs.wire⟩
    exact hmod.trans (hs.mode.trans (congrArg (· ^^ switching s) hat.symm))
  | run h => exact moves_tracked h hs fun o ho => by cases ho
  | answer a hr h => exact moves_tracked h hs fun o ho hsw => by cases ho; rw [hg hsw]; rfl
  | pushed hp => exact ⟨hs.shaped, hs.mode, hs.wire⟩

theorem switching_some (h : switching s = true) :
    ∃ c r, s.cur = some c ∧ c.act = some (.request r) ∧ r.command = "+++" := by
  obtain ⟨a, ha, hsw⟩ := (Option.any_eq_true _ _).mp h
  obtain ⟨c, hc, ha⟩ := Option.bind_eq_some_iff.mp ha
  cases a with
  | request r => exact ⟨c, r, hc, ha, beq_iff_eq.mp hsw⟩
  | operation op => cases hsw
  | openNetwork op a => cases hsw

/-- A failed request switches nothing, and nothing is written for it. -/
theorem failed_frame (d : Driver) (k : Handler) (r : AtRequest) :
    (closed (actEnded d k (.request r) .error) k .error).atMode = d.atMode ∧
      (closed (actEnded d k (.request r) .error) k .error).moduleAtMode = d.moduleAtMode ∧
      (closed (actEnded d k (.request r) .error) k .error).wire = d.wire := by
  obtain ⟨hat, hmod, hwire⟩ := closed_line (actEnded d k (.request r) .error) k .error
  have hif : (actEnded d k (.request r) .error).moduleAtMode = d.moduleAtMode := by
    rw [actEnded, if_neg fun h => by cases h.1]
  exact ⟨hat, hmod.trans hif, hwire⟩

/-- The answer that ends an outstanding request. -/
theorem step_answer {c : Cur Handler Stage Act} {r : AtRequest} {a : Answer} (hc : s.cur = some c)
    (ha : c.act = some (.request r)) (hne : a ≠ .expected) :
    step ae s (.answer a) =
      some ⟨closed (actEnded s.d c.handler (.request r) .error) c.handler .error, s.queue, none⟩ := by
  have ho : a.ended = .error := by cases a <;> first | rfl | exact absurd rfl hne
  have hout : outstanding s = some r := by rw [outstanding, waiting_cur hc, ha]
  rw [step, hout, Option.bind_some, ho]
  exact finishAct_fails hc ha (by decide)

/-- Flag and module agree throughout a run exactly when every "+++" of it is acknowledged. -/
theorem coherent_iff (ae : Aether) (i : LoraGatewayInit) (es : List Ev) :
    Always (step ae) Coherent (construct i) es ↔ Meets (step ae) Acknowledged (construct i) es := by
  refine always_iff_meets (fun s hs => hs.coherent) (fun s e t hs hu h => step_tracked h hs hu) ?_ (construct_tracked i)
  intro s ev hs hu
  cases ev with
  | answer a =>
    obtain ⟨hsw, hne⟩ := Classical.not_imp.mp hu
    obtain ⟨c, r, hc, ha, hr⟩ := switching_some hsw
    refine ⟨_, step_answer hc ha hne, fun hcoh => ?_⟩
    obtain ⟨hat, hmod, -⟩ := failed_frame s.d c.handler r
    have heq : s.d.atMode = s.d.moduleAtMode := hat.symm.trans ((hcoh.1 rfl).trans hmod)
    have hm := hs.mode
    rw [hsw, Bool.xor_true, ← heq] at hm
    cases h : s.d.atMode <;> rw [h] at hm <;> cases hm
  | _ => exact absurd trivial hu

/-- The "+++" of `Init` times out; `SetLoraGatewayAddress` then takes the module to be in
    AT mode, and its command goes over the air. -/
theorem command_in_transparent_mode :
    let es := [Ev.call (.setLoraGatewayAddress 1), .run, .run, .answer .timeout, .run, .run, .run]
    ¬ Always (step ⟨true, fun flags => flags.toNat?.map UInt32.ofNat⟩) Coherent (construct .default) es := by
  intro es h
  have hlast := always_exec h rfl
  have hw := hlast.2 ⟨⟨"AT+MAC00,01", [waitOk]⟩, false⟩ (by decide) (by decide)
  cases hw

/-! ## Failures between the two -/

def Between (c : Cur Handler Stage Act) : Prop :=
  ∃ ran x, c.ran = ran ++ [x] ∧ .enterAtMode ∈ ran ∧ .exitAtMode ∈ c.rest

def ReportedFailed (k : Handler) (d : Driver) : Prop :=
  (k, .error) ∈ d.ended ∧ ∀ op, k = .operation op → (op, .failed) ∈ d.reports

/-- Out of AT mode again: the flag is down and the exit "+++" was written after `d`. -/
def BackOut (d d' : Driver) : Prop :=
  d'.atMode = false ∧ ⟨"+++", [waitExitAt, waitPowerOn]⟩ ∈ (d'.wire.drop d.wire.length).map Written.request

theorem reportedFailed (d : Driver) (k : Handler) : ReportedFailed k (closed d k .error) := by
  cases k with
  | operation op =>
    refine ⟨List.mem_append_right _ (List.mem_singleton_self _), fun op' h => ?_⟩
    cases h
    exact List.mem_append_right _ (List.mem_singleton_self _)
  | init => exact ⟨List.mem_append_right _ (List.mem_singleton_self _), fun op h => by cases h⟩
  | nobody => exact ⟨List.mem_append_right _ (List.mem_singleton_self _), fun op h => by cases h⟩

theorem Shaped.between {c : Cur Handler Stage Act} (h : Shaped d c) (hb : Between c) : d.atMode = true := by
  obtain ⟨ran, x, hran, hen, hex⟩ := hb
  obtain ⟨o, hbr⟩ := h.bracketed
  refine h.flag ?_ (hbr.once hex)
  rw [hran]
  exact List.mem_append_left _ hen

/-- In no run does a request that fails between the two leave the driver out of AT mode:
    the operation is reported failed with the flag set and no "+++" written. -/
theorem failed_inside (ae : Aether) (i : LoraGatewayInit) (es : List Ev) :
    Always (step ae) (fun s => ∀ c r a, s.cur = some c → Between c → c.act = some (.request r) → a ≠ .expected →
      ∃ t, step ae s (.answer a) = some t ∧ t.cur = none ∧ ReportedFailed c.handler t.d ∧ ¬ BackOut s.d t.d)
      (construct i) es := by
  refine always_of_invariant (I := fun s => ∀ c, s.cur = some c → Shaped s.d c) (fun s hs c r a hc hb ha hne => ?_)
    (fun s ev t hs h => step_shaped h hs) (fun c h => by cases h)
  refine ⟨_, step_answer hc ha hne, rfl, reportedFailed _ _, fun hout => ?_⟩
  have hflag := (failed_frame s.d c.handler r).1.trans ((hs c hc).between hb)
  cases hflag.symm.trans hout.1

/-- After a failed `Init` and a first `SetLoraGatewayAddress` the module is out of AT mode
    when the second one begins; its command fails. -/
theorem failed_address_in_at_mode :
    let step := step ⟨true, fun flags => flags.toNat?.map UInt32.ofNat⟩
    let begun := [Ev.call (.setLoraGatewayAddress 1), .call (.setLoraGatewayAddress 2), .run, .run, .answer .expected,
      .run, .answer .error, .run, .run, .run, .answer .expected, .run, .answer .expected, .run, .run]
    let failed := [Ev.run, .answer .expected, .run, .answer .error]
    ∃ s t, exec step (construct .default) begun = some s ∧
      s.cur = some ⟨.operation 1, [], setLoraGatewayAddress 2, none⟩ ∧ s.d.atMode = false ∧ s.d.moduleAtMode = false ∧
      exec step s failed = some t ∧ t.d.reports = [(0, .notify), (1, .failed)] ∧ t.d.atMode = true ∧
      (t.d.wire.drop s.d.wire.length).map Written.request = [⟨"+++", [waitEntryAt]⟩, ⟨"AT+MAC00,02", [waitOk]⟩] :=
  ⟨_, _, rfl, rfl, rfl, rfl, rfl, rfl, rfl, by decide⟩

end AetherGateway.Lora
