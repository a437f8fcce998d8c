/-
  AetherGateway.Lora.Scripts — what the pipeline of an operation writes (see
  `AetherGateway.Lora.Operations`).

  A pipeline read by itself is a script: the AT requests that it writes when each is
  acknowledged, from the driver's `at_mode_` when its stage was made. The queue runs it
  between calls, answers and other pipelines.
  - `script_bracket`: the script of commands between `EnterAtMode` and `ExitAtMode`.
  - `Follows.moves`: what a step does to the pipeline of the operation.
  - `Once`: a stage is made once, so the flag that it was made with is one.
  - `transcripts`: in every run the transcript of a finished operation is its script, or a
    start of it that ends with the request that was not acknowledged; it is told success
    exactly when it got through the script.
-/

import Mathlib.Data.List.Nodup
import AetherGateway.Lora.PowerSave
import AetherGateway.Lora.Transcript

namespace AetherGateway.Lora

open AetherGateway.SerialQueue AetherGateway.Runs

variable {ae : Aether} {s t : St} {d d' : Driver} {op : Nat} {c : Call} {b : Bool} {l : List Stage}

/-! ## Scripts -/

/-- The request that a stage writes, with the driver's flag before and after it; no
    request and no change where the stage is null. -/
def Stage.effect (atMode : Bool) : Stage → Option (Option AtRequest × Bool)
  | .enterAtMode => if atMode then none else some (some ⟨"+++", [waitEntryAt]⟩, true)
  | .exitAtMode => if atMode then some (some ⟨"+++", [waitExitAt, waitPowerOn]⟩, false) else none
  | .request command => some (some ⟨command, [waitOk]⟩, atMode)
  | .null => none
  | _ => some (none, atMode)

/-- The requests of the stages, each acknowledged, and whether the stages all run. -/
def script (ae : Aether) : Bool → List Stage → List AtRequest × Bool
  | _, [] => ([], true)
  | atMode, x :: l =>
    match x.effect atMode with
    | none => if ae.nullPasses then script ae atMode l else ([], false)
    | some (r, atMode) => (r.toList ++ (script ae atMode l).1, (script ae atMode l).2)

theorem script_null {x : Stage} (hx : x.effect b = none) :
    script ae b (x :: l) = if ae.nullPasses then script ae b l else ([], false) := by
  rw [script, hx]

theorem script_effect {x : Stage} {r : Option AtRequest} {b' : Bool} (hx : x.effect b = some (r, b')) :
    script ae b (x :: l) = (r.toList ++ (script ae b' l).1, (script ae b' l).2) := by
  rw [script, hx]

def AtRequest.ofCommand (command : String) : AtRequest := ⟨command, [waitOk]⟩

theorem script_requests (commands : List String) (b : Bool) (l : List Stage) :
    script ae b (commands.map .request ++ l) = (commands.map .ofCommand ++ (script ae b l).1, (script ae b l).2) := by
  induction commands with
  | nil => rfl
  | cons command commands ih =>
    rw [List.map_cons, List.cons_append, script_effect rfl, ih]
    rfl

/-- Commands between `EnterAtMode` and `ExitAtMode`. In AT mode the "+++" before them is
    left out, and where null stages fail nothing is written. -/
theorem script_bracket (ae : Aether) (commands : List String) (b : Bool) (tail : List Stage) :
    script ae b (.enterAtMode :: (commands.map .request ++ .exitAtMode :: tail)) =
      if b = true ∧ ae.nullPasses = false then ([], false)
      else ((if b then [] else [⟨"+++", [waitEntryAt]⟩]) ++ commands.map .ofCommand ++
        ⟨"+++", [waitExitAt, waitPowerOn]⟩ :: (script ae false tail).1, (script ae false tail).2) := by
  have hexit : script ae true (.exitAtMode :: tail) =
      (⟨"+++", [waitExitAt, waitPowerOn]⟩ :: (script ae false tail).1, (script ae false tail).2) := rfl
  cases b with
  | false =>
    rw [script]
    simp only [Stage.effect, Bool.false_eq_true, if_false, script_requests, hexit, false_and]
    rfl
  | true =>
    rw [script]
    cases hn : ae.nullPasses with
    | false => simp [Stage.effect]
    | true => simp [Stage.effect, script_requests, hexit]

/-! ## Following a script -/

def Stage.scripted : Stage → Bool
  | .enterAtMode | .exitAtMode | .request _ | .null | .started => true
  | _ => false

theorem scripted_op? {x : Stage} (h : x.scripted = true) : x.op? = none := by
  cases x <;> first | rfl | cases h

theorem callPipeline_scripted (h : callPipeline d op c = some (.operation op, l)) : ∀ x ∈ l, x.scripted = true := by
  have all : ∀ {l : List Stage}, l.all Stage.scripted = true → ∀ x ∈ l, x.scripted = true := fun h => List.all_eq_true.mp h
  cases c with
  | start =>
    simp only [callPipeline, start, Option.some.injEq] at h
    split at h
    · cases h
    · cases h; exact all rfl
  | openNetwork protocol host port => cases protocol <;> cases h
  | setPowerSaveParam psp =>
    cases h
    obtain ⟨m, l, p, b, cr, sf⟩ := psp
    cases b <;> exact all rfl
  | stop | setLoraGatewayAddress | setLoraGatewayChannel | setLoraGatewayCRCCheck
  | setLoraGatewayIQSignalInversion => cases h; exact all rfl

/-- What a stage of a script does is its effect. -/
theorem Starts.effect {x : Stage} {jobs : List Job} {r : Started Act} (h : Starts d x (d', jobs, r))
    (hx : x.scripted = true) :
    x.effect d.atMode = none ∧ r = .null ∧ d'.atMode = d.atMode ∨
      (x.effect d.atMode = some (none, d'.atMode) ∧ r = .done) ∨
      ∃ q, x.effect d.atMode = some (some q, d'.atMode) ∧ r = .wait (.request q) := by
  cases h with
  | enterAtMode h => exact Or.inr (Or.inr ⟨_, by simp [Stage.effect, h], rfl⟩)
  | exitAtMode h => exact Or.inr (Or.inr ⟨_, by simp [Stage.effect, h], rfl⟩)
  | request command => exact Or.inr (Or.inr ⟨_, rfl, rfl⟩)
  | entered h => exact Or.inl ⟨by simp [Stage.effect, h], rfl, rfl⟩
  | exited h => exact Or.inl ⟨by simp [Stage.effect, h], rfl, rfl⟩
  | null => exact Or.inl ⟨rfl, rfl, rfl⟩
  | started => exact Or.inr (Or.inl ⟨rfl, rfl⟩)
  | poll | refused | operation | openTcp | openUdp | notify | initiated => cases hx

/-- The head is the pipeline of the operation: what was answered, what is outstanding and
    what the stages to come write make up the script. -/
structure Follows (ae : Aether) (b : Bool) (op : Nat) (l : List Stage) (d : Driver) (k : Cur Handler Stage Act) : Prop where
  handler : k.handler = .operation op
  stages : k.ran ++ k.rest = l
  act : ∀ a, k.act = some a → ∃ r, a = .request r
  acked : ∀ p ∈ answersOf d op, p.2 = .result
  reads : script ae b l =
    ((answersOf d op).map Prod.fst ++ (k.act.bind Act.request?).toList ++ (script ae d.atMode k.rest).1,
      (script ae d.atMode k.rest).2)

structure Transcribed (ae : Aether) (b : Bool) (op : Nat) (l : List Stage) (d : Driver) : Prop where
  start : (answersOf d op).map Prod.fst <+: (script ae b l).1
  acked : ∀ p ∈ (answersOf d op).dropLast, p.2 = .result
  success : .notify ∈ told d op ↔ (script ae b l).2 = true ∧ answersOf d op = (script ae b l).1.map (·, .result)

theorem map_acked {as : List (AtRequest × Ended)} (h : ∀ p ∈ as, p.2 = .result) :
    (as.map Prod.fst).map (·, Ended.result) = as := by
  rw [List.map_map]
  refine (List.map_congr_left fun p hp => ?_).trans (List.map_id as)
  exact Prod.ext rfl (h p hp).symm

section
variable {k : Cur Handler Stage Act}

/-- A stage starts that is waited for or passed over. -/
theorem Follows.starts {x : Stage} {rest : List Stage} {jobs : List Job} {r : Started Act} {act : Option Act}
    (hf : Follows ae b op l s.d k) (hx : x.scripted = true) (ha : k.act = none) (hr : k.rest = x :: rest)
    (hs : startStage s.d x = (d', jobs, r))
    (hact : r = .null ∧ ae.nullPasses = true ∧ act = none ∨ r = .done ∧ act = none ∨ ∃ a, r = .wait a ∧ act = some a) :
    Follows ae b op l d' ⟨k.handler, k.ran ++ [x], rest, act⟩ := by
  have hst := startStage_starts hs
  have hans : answersOf d' op = answersOf s.d op := by unfold answersOf; rw [hst.answers]
  refine ⟨hf.handler, ?_, fun a h => ?_, fun p hp => hf.acked p (by rw [← hans]; exact hp), ?_⟩
  · rw [← hf.stages, hr]
    exact (List.append_cons ..).symm
  · rcases hact with ⟨-, -, rfl⟩ | ⟨-, rfl⟩ | ⟨a', rfl, rfl⟩
    · cases h
    · cases h
    · cases h
      rcases hst.effect hx with ⟨-, h, -⟩ | ⟨-, h⟩ | ⟨q, -, h⟩ <;> cases h
      exact ⟨q, rfl⟩
  · rw [hf.reads, hans, ha, hr]
    rcases hst.effect hx with ⟨he, rfl, hd⟩ | ⟨he, rfl⟩ | ⟨q, he, rfl⟩
    · rcases hact with ⟨-, hn, rfl⟩ | ⟨h, -⟩ | ⟨a, h, -⟩
      · rw [script_null he, if_pos hn, hd]
      · cases h
      · cases h
    · rcases hact with ⟨h, -, -⟩ | ⟨-, rfl⟩ | ⟨a, h, -⟩
      · cases h
      · rw [script_effect he]
        rfl
      · cases h
    · rcases hact with ⟨h, -, -⟩ | ⟨h, -⟩ | ⟨a, h, rfl⟩
      · cases h
      · cases h
      · cases h
        rw [script_effect he]
        simp [Act.request?]

/-- An end that is no result is told as no success. -/
theorem told_failed {o : Ended} (hf : Follows ae b op l s.d k) (ho : o ≠ .result) (ht : told d op = []) :
    .notify ∉ told (closed d k.handler o) op := by
  intro hn
  rw [told_ended hf.handler ht] at hn
  cases o with
  | result => exact ho rfl
  | error => cases List.mem_singleton.mp hn
  | stop => cases List.mem_singleton.mp hn

/-- At the end of the pipeline the script is what was answered. -/
theorem Follows.ends (hf : Follows ae b op l d k) (ha : k.act = none) (hr : k.rest = []) :
    script ae b l = ((answersOf d op).map Prod.fst, true) := by
  rw [hf.reads, ha, hr]
  simp [script]

theorem Follows.finished (hf : Follows ae b op l s.d k) (ha : k.act = none) (hr : k.rest = [])
    (ht : told s.d op = []) : Transcribed ae b op l (closed s.d k.handler .result) := by
  have hscript := hf.ends ha hr
  constructor
  · rewrite [answersOf_closed, hscript]
    exact List.prefix_rfl
  · rw [answersOf_closed]
    exact fun p hp => hf.acked p (List.dropLast_subset _ hp)
  · rw [answersOf_closed, told_ended hf.handler ht, hscript, map_acked hf.acked]
    exact iff_of_true (List.mem_singleton_self _) ⟨rfl, rfl⟩

/-- A null stage that is not passed over ends the script with what came before it. -/
theorem Follows.nullFailed {x : Stage} {rest : List Stage} {jobs : List Job} (hf : Follows ae b op l s.d k)
    (hx : x.scripted = true) (ha : k.act = none) (hr : k.rest = x :: rest)
    (hs : startStage s.d x = (d', jobs, .null)) (hnull : ae.nullPasses = false) (ht : told s.d op = []) :
    Transcribed ae b op l (closed d' k.handler .error) := by
  have hst := startStage_starts hs
  have heffect : x.effect s.d.atMode = none := by
    rcases hst.effect hx with ⟨h, -, -⟩ | ⟨-, h⟩ | ⟨q, -, h⟩
    · exact h
    · cases h
    · cases h
  have hscript : script ae b l = ((answersOf s.d op).map Prod.fst, false) := by
    rw [hf.reads, ha, hr, script_null heffect, hnull]
    simp
  have hans : answersOf d' op = answersOf s.d op := by unfold answersOf; rw [hst.answers]
  have hop : x.op? ≠ some op := by rw [scripted_op? hx]; simp
  constructor
  · rewrite [answersOf_closed, hans, hscript]
    exact List.prefix_rfl
  · rw [answersOf_closed, hans]
    exact fun p hp => hf.acked p (List.dropLast_subset _ hp)
  · refine iff_of_false (told_failed hf (by simp) ((hst.told hop).trans ht)) fun h => ?_
    rw [hscript] at h
    cases h.1

/-- The request that is not acknowledged is the script's last one. -/
theorem Follows.actFailed {a : Act} {o : Ended} (hf : Follows ae b op l s.d k) (ha : k.act = some a)
    (ho : o ≠ .result) (ht : told s.d op = []) :
    Transcribed ae b op l (closed (actEnded s.d k.handler a o) k.handler o) := by
  obtain ⟨r, rfl⟩ := hf.act _ ha
  have hans : answersOf (closed (actEnded s.d k.handler (.request r) o) k.handler o) op =
      answersOf s.d op ++ [(r, o)] := by rw [answersOf_closed, answered_actEnded hf.handler]
  constructor
  · rw [hans, hf.reads, ha, List.map_append]
    exact List.prefix_append _ _
  · rw [hans, List.dropLast_concat]
    exact hf.acked
  · refine iff_of_false (told_failed hf ho ((told_actEnded (by simp [Act.op?])).trans ht)) fun h => ho ?_
    rw [hans] at h
    have hm : (r, o) ∈ (script ae b l).1.map (·, Ended.result) := by rw [← h.2]; simp
    obtain ⟨q, -, hq⟩ := List.mem_map.mp hm
    exact (congrArg Prod.snd hq).symm

theorem Follows.moves {e : Option Ended} (hm : Moves (machine ae) s e t) (hc : s.cur = some k)
    (hf : Follows ae b op l s.d k) (hl : ∀ x ∈ l, x.scripted = true) (ht : told s.d op = []) :
    (∃ k', t.cur = some k' ∧ Follows ae b op l t.d k') ∨ t.cur = none ∧ Transcribed ae b op l t.d := by
  have hmem : ∀ {x : Stage} {rest : List Stage}, k.rest = x :: rest → x.scripted = true := by
    intro x rest hr
    exact hl x (by rw [← hf.stages, hr]; simp)
  cases hm with
  | skip hc' _ _ => cases hc.symm.trans hc'
  | opened hc' _ _ => cases hc.symm.trans hc'
  | finished hc' ha hr =>
    cases hc.symm.trans hc'
    exact Or.inr ⟨rfl, hf.finished ha hr ht⟩
  | waits hc' ha hr hs =>
    cases hc.symm.trans hc'
    exact Or.inl ⟨_, rfl, hf.starts (hmem hr) ha hr hs (Or.inr (Or.inr ⟨_, rfl, rfl⟩))⟩
  | passed hc' ha hr hs hnull =>
    cases hc.symm.trans hc'
    refine Or.inl ⟨_, rfl, hf.starts (hmem hr) ha hr hs ?_⟩
    exact hnull.symm.imp (fun h => ⟨h.1, h.2, rfl⟩) fun h => Or.inl ⟨h, rfl⟩
  | nullFailed hc' ha hr hs hnull =>
    cases hc.symm.trans hc'
    exact Or.inr ⟨rfl, hf.nullFailed (hmem hr) ha hr hs hnull ht⟩
  | actResult hc' ha he =>
    cases hc.symm.trans hc'
    obtain ⟨r, rfl⟩ := hf.act _ ha
    refine Or.inl ⟨_, rfl, hf.handler, hf.stages, fun a h => (by cases h), fun p hp => ?_, ?_⟩
    · rw [machine_ended, answered_actEnded hf.handler] at hp
      rcases List.mem_append.mp hp with hp | hp
      · exact hf.acked p hp
      · rw [List.mem_singleton.mp hp]
    · rw [hf.reads, machine_ended, answered_actEnded hf.handler, ha, actEnded_frame Driver.atMode (fun _ _ _ _ => rfl)]
      simp [Act.request?]
  | actFailed hc' ha he ho =>
    cases hc.symm.trans hc'
    exact Or.inr ⟨rfl, hf.actFailed ha ho ht⟩

end

/-! ## Every run -/

theorem Names.keeps {e : Option Ended} {k k' : Cur Handler Stage Act} (hm : Moves (machine ae) s e t)
    (hc : s.cur = some k) (hc' : t.cur = some k') : k'.handler = k.handler := by
  refine hm.head (P := fun _ k' => k'.handler = k.handler) (fun j queue k₀ stages h _ _ => ?_)
    (fun k₀ x rest d jobs r act h _ _ _ _ => ?_) (fun k₀ a h _ _ => ?_) k' hc'
  · cases hc.symm.trans h
  · cases hc.symm.trans h; rfl
  · cases hc.symm.trans h; rfl

section
variable {h h' : Logged} {ev : Ev} {k : Cur Handler Stage Act}

/-- The queue comes to the stage of an object. -/
theorem Sound.opens (hh : Sound h) (hs : h.step ae ev = some h') (ha : Away h.s op) (hc : h'.s.cur = some k)
    (hn : Names k op) : ∃ c l, h.calls[op]? = some c ∧ callPipeline h.s.d op c = some (k.handler, l) ∧
      k = ⟨k.handler, [], l, none⟩ ∧ h'.s.d = h.s.d ∧ answersOf h.s.d op = [] ∧ (op, h.s.d.atMode) ∈ h'.began := by
  obtain ⟨ht, -, hbegan⟩ := Logged.step_some hs
  rcases step_split ht with ⟨e, hm, hrun, hout⟩ | hb
  · by_cases hcur : h.s.cur = none
    · obtain ⟨j, queue, hq, hopen⟩ := hm.opens hcur
      have hev : ev = .run := by
        cases e with
        | none => exact hrun rfl
        | some o =>
          obtain ⟨-, r, hr⟩ := hout o rfl
          obtain ⟨k, hk, -⟩ := outstanding_some hr
          cases hcur.symm.trans hk
      unfold openJob at hopen
      cases hp : (machine ae).pipeline h.s.d j with
      | none =>
        rw [hp] at hopen
        rw [hopen] at hc
        cases hcur.symm.trans hc
      | some p =>
        obtain ⟨k₀, l⟩ := p
        rw [hp] at hopen
        rw [hopen] at hc
        cases hc
        have hj := pipeline_names hp hn
        cases j with
        | operation op' c =>
          cases hj
          have hcall := hh.queue op c (by rw [hq]; exact List.mem_cons_self)
          refine ⟨c, l, hcall, hp, rfl, by rw [hopen], ((hh.phase op c hcall).front hcur hq).2.2, ?_⟩
          rw [hbegan, hev]
          exact List.mem_append_right _ (by simp [begins, hcur, hq])
        | _ => cases hj
    · exact absurd hn (moves_away hm ha (fun _ _ h => absurd h hcur) k hc)
  · exact absurd hn (ha k (by rw [← hb.cur]; exact hc))

/-- The stage of the operation was made with the flag `b` and gave the stages `l`. -/
def Began (h : Logged) (op : Nat) (c : Call) (b : Bool) (l : List Stage) : Prop :=
  (op, b) ∈ h.began ∧ ∃ d k, callPipeline d op c = some (k, l)

structure Scripts (ae : Aether) (h : Logged) : Prop where
  sound : Sound h
  running : ∀ op c k, h.calls[op]? = some c → h.s.cur = some k → k.handler = .operation op →
    ∃ b l, Began h op c b l ∧ Follows ae b op l h.s.d k
  notifying : ∀ op k, h.s.cur = some k → Names k op → k.handler ≠ .operation op →
    answersOf h.s.d op = [] ∧ ∃ b, (op, b) ∈ h.began
  done : ∀ op c, h.calls[op]? = some c → c.network = false → Finished h.s op →
    ∃ b l, Began h op c b l ∧ Transcribed ae b op l h.s.d

theorem construct_scripts (i : LoraGatewayInit) : Scripts ae (.construct i) where
  sound := construct_sound i
  running op c k hc := by cases hc
  notifying op k hc := by cases hc
  done op c hc := by cases hc

theorem Began.step (hb : Began h op c b l) (hs : h.step ae ev = some h') : Began h' op c b l := by
  refine ⟨?_, hb.2⟩
  rw [(Logged.step_some hs).2.2]
  exact List.mem_append_left _ hb.1

/-- A step with the pipeline of the operation at the head. -/
theorem Scripts.head (hh : Scripts ae h) (hs : h.step ae ev = some h') (hcall : h.calls[op]? = some c)
    (hc : h.s.cur = some k) (hk : k.handler = .operation op) :
    ∃ b l, Began h' op c b l ∧
      ((∃ k', h'.s.cur = some k' ∧ Follows ae b op l h'.s.d k') ∨ h'.s.cur = none ∧ Transcribed ae b op l h'.s.d) := by
  obtain ⟨ht, -, -⟩ := Logged.step_some hs
  obtain ⟨b, l, hb, hf⟩ := hh.running op c k hcall hc hk
  refine ⟨b, l, hb.step hs, ?_⟩
  rcases step_split ht with ⟨e, hm, -⟩ | hbeside
  · obtain ⟨⟨d, hp⟩, -, htold⟩ := (hh.sound.phase op c hcall).pipeline hc hk
    exact hf.moves hm hc (fun x hx => callPipeline_scripted hp x (by rw [hf.stages]; exact hx)) htold
  · obtain ⟨-, hat, hans, -⟩ := hbeside.kept
    have hans : answersOf h'.s.d op = answersOf h.s.d op := by unfold answersOf; rw [hans]
    refine Or.inl ⟨k, hbeside.cur.trans hc, hf.handler, hf.stages, hf.act, ?_, ?_⟩
    · rw [hans]; exact hf.acked
    · rw [hans, hat]; exact hf.reads

/-- The handler at the head stays, when its object was named there before. -/
theorem step_handler {k' : Cur Handler Stage Act} (hs : Lora.step ae s ev = some t) (hc : s.cur = some k)
    (hc' : t.cur = some k') : k'.handler = k.handler := by
  rcases step_split hs with ⟨e, hm, -⟩ | hb
  · exact Names.keeps hm hc hc'
  · cases hc.symm.trans (hb.cur.symm.trans hc'); rfl

/-- The answers of a pipeline are its handler's. -/
theorem step_answersOf (hs : Lora.step ae s ev = some t) (hc : s.cur = some k) (hk : k.handler ≠ .operation op) :
    answersOf t.d op = answersOf s.d op := by
  rcases step_split hs with ⟨e, hm, -⟩ | hb
  · rcases moves_answers hm with ha | ⟨k', r, o, hc', -, ha⟩
    · unfold answersOf; rw [ha]
    · cases hc.symm.trans hc'
      exact (transcript_push ha (.operation op)).trans (by rw [if_neg hk.symm]; exact List.append_nil _)
  · unfold answersOf; rw [hb.kept.2.2.1]

theorem Scripts.running_step {k' : Cur Handler Stage Act} (hh : Scripts ae h) (hs : h.step ae ev = some h')
    (hcall : h'.calls[op]? = some c) (hc' : h'.s.cur = some k') (hk' : k'.handler = .operation op) :
    ∃ b l, Began h' op c b l ∧ Follows ae b op l h'.s.d k' := by
  have hn : Names k' op := Or.inl (by rw [hk']; rfl)
  obtain ⟨ht, -, -⟩ := Logged.step_some hs
  by_cases ha : Away h.s op
  · obtain ⟨c₀, l, hcall₀, hp, hk, hd, hans, hbegan⟩ := hh.sound.opens hs ha hc' hn
    cases hcall.symm.trans (Logged.calls_step hs hcall₀)
    rw [hk'] at hp hk
    refine ⟨_, l, ⟨hbegan, _, _, hp⟩, ?_⟩
    rw [hk, hd]
    refine ⟨rfl, rfl, fun a ha => (by cases ha), fun p hp => ?_, ?_⟩
    · rw [hans] at hp
      cases hp
    · rw [hans]
      rfl
  · simp only [Away, not_forall, not_not] at ha
    obtain ⟨k, hc, hn⟩ := ha
    obtain ⟨c₀, hcall₀, -⟩ := hh.sound.called hc hn
    cases hcall.symm.trans (Logged.calls_step hs hcall₀)
    obtain ⟨b, l, hb, ⟨k₁, hc₁, hf⟩ | ⟨hc₁, -⟩⟩ := hh.head hs hcall₀ hc ((step_handler ht hc hc').symm.trans hk')
    · cases hc'.symm.trans hc₁
      exact ⟨b, l, hb, hf⟩
    · cases hc'.symm.trans hc₁

theorem Scripts.notifying_step {k' : Cur Handler Stage Act} (hh : Scripts ae h) (hs : h.step ae ev = some h')
    (hc' : h'.s.cur = some k') (hn : Names k' op) (hk' : k'.handler ≠ .operation op) :
    answersOf h'.s.d op = [] ∧ ∃ b, (op, b) ∈ h'.began := by
  obtain ⟨ht, -, hbegan⟩ := Logged.step_some hs
  by_cases ha : Away h.s op
  · obtain ⟨c, l, -, -, -, hd, hans, hb⟩ := hh.sound.opens hs ha hc' hn
    exact ⟨by rw [hd]; exact hans, _, hb⟩
  · simp only [Away, not_forall, not_not] at ha
    obtain ⟨k, hc, hn⟩ := ha
    have hk : k.handler ≠ .operation op := by rw [← step_handler ht hc hc']; exact hk'
    obtain ⟨hans, b, hb⟩ := hh.notifying op k hc hn hk
    exact ⟨(step_answersOf ht hc hk).trans hans, b, by rw [hbegan]; exact List.mem_append_left _ hb⟩

/-- `Start` found the driver started and wrote nothing. -/
theorem transcribed_notified (hans : answersOf d op = []) (ht : told d op = [.notify]) :
    Transcribed ae b op [.notify op] d where
  start := by rw [hans]; exact List.nil_prefix
  acked p hp := by rw [hans] at hp; cases hp
  success := by
    rw [hans, ht]
    exact iff_of_true (List.mem_singleton_self _) ⟨rfl, rfl⟩

theorem Scripts.done_step (hh : Scripts ae h) (hs : h.step ae ev = some h') (hcall : h'.calls[op]? = some c)
    (hnet : c.network = false) (hf : Finished h'.s op) :
    ∃ b l, Began h' op c b l ∧ Transcribed ae b op l h'.s.d := by
  obtain ⟨ht, -, hbegan⟩ := Logged.step_some hs
  have away : ∀ {k' : Cur Handler Stage Act}, h'.s.cur = some k' → Names k' op → False := fun hc hn => hf.2 _ hc hn
  by_cases hold : h.calls[op]? = some c
  · cases hh.sound.phase op c hold with
    | queued hq _ _ _ _ _ =>
      have hnone := callPipeline_none (step_finishes ht (by rw [hq]; exact List.mem_append_right _ List.mem_cons_self) hf)
      cases c with
      | openNetwork => cases hnet
      | _ => cases hnone
    | @running k hc hk _ _ _ _ =>
      obtain ⟨b, l, hb, ⟨k', hc', hfollows⟩ | ⟨-, htr⟩⟩ := hh.head hs hold hc hk
      · exact (away hc' (Or.inl (by rw [hfollows.handler]; rfl))).elim
      · exact ⟨b, l, hb, htr⟩
    | notifies hcall hc _ _ =>
      rcases step_split ht with ⟨e, hm, -⟩ | hb
      · have hopen := hm.starts hc rfl rfl
        rw [hopen] at away
        exact (away rfl (Or.inr (Or.inl ⟨.notify op, by simp, rfl⟩))).elim
      · exact (away (hb.cur.trans hc) (Or.inr (Or.inl ⟨.notify op, by simp, rfl⟩))).elim
    | notified hcall hc _ htold =>
      subst hcall
      have hn : Names ⟨.nobody, [.notify op], [], none⟩ op := Or.inr (Or.inl ⟨.notify op, by simp, rfl⟩)
      obtain ⟨hans, b, hb⟩ := hh.notifying op _ hc hn nofun
      refine ⟨b, [.notify op], ⟨by rw [hbegan]; exact List.mem_append_left _ hb,
        { h.s.d with started := true }, .nobody, rfl⟩, transcribed_notified ((step_answersOf ht hc nofun).trans hans) ?_⟩
      rcases step_split ht with ⟨e, hm, -⟩ | hb
      · rw [hm.closes hc rfl rfl]
        exact htold
      · exact (away (hb.cur.trans hc) hn).elim
    | opens hcall _ _ _ _ => rw [hnet] at hcall; cases hcall
    | opening hcall _ _ _ _ => rw [hnet] at hcall; cases hcall
    | done hf₀ _ =>
      obtain ⟨htold, hans⟩ := told_step ht hf₀.2
      obtain ⟨b, l, hb, htr⟩ := hh.done op c hold hnet hf₀
      refine ⟨b, l, hb.step hs, ?_, ?_, ?_⟩
      · rw [hans]; exact htr.start
      · rw [hans]; exact htr.acked
      · rw [hans, htold]; exact htr.success
  · obtain ⟨-, hq⟩ := hh.sound.added hs hcall hold
    exact absurd rfl (hf.1 (.operation op c) (by rw [hq]; simp))

theorem Scripts.step (hh : Scripts ae h) (hs : h.step ae ev = some h') : Scripts ae h' where
  sound := step_sound hs hh.sound
  running _ _ _ hcall hc hk := hh.running_step hs hcall hc hk
  notifying _ _ hc hn hk := hh.notifying_step hs hc hn hk
  done _ _ hcall hnet hf := hh.done_step hs hcall hnet hf

/-! ## The flag of a stage -/

structure Once (h : Logged) : Prop where
  sound : Sound h
  left : ∀ p ∈ h.began, p.1 < h.s.d.operations ∧ Unqueued h.s p.1
  nodup : (h.began.map Prod.fst).Nodup

theorem construct_once (i : LoraGatewayInit) : Once (.construct i) :=
  ⟨construct_sound i, fun p hp => (by cases hp), List.nodup_nil⟩

theorem begins_some (hb : begins s ev = some op) :
    ev = .run ∧ s.cur = none ∧ ∃ c queue, s.queue = .operation op c :: queue := by
  cases ev with
  | run =>
    simp only [begins] at hb
    split at hb
    · next op' c queue hc hq => cases hb; exact ⟨rfl, hc, c, queue, hq⟩
    · cases hb
  | _ => cases hb

theorem Once.step (hh : Once h) (hs : h.step ae ev = some h') : Once h' := by
  obtain ⟨ht, -, hbegan⟩ := Logged.step_some hs
  have hq := step_queues ht
  have hops : h.s.d.operations ≤ h'.s.d.operations := by
    cases hq with
    | took _ _ _ _ ho => omega
    | added _ _ _ ho => omega
    | handed _ _ ho => omega
  have hleft : ∀ p ∈ h.began, p.1 < h'.s.d.operations ∧ Unqueued h'.s p.1 := fun p hp =>
    ⟨Nat.lt_of_lt_of_le (hh.left p hp).1 hops, (hh.left p hp).2.step (hh.left p hp).1 hq⟩
  cases hb : begins h.s ev with
  | none =>
    rw [hb, Option.toList_none, List.map_nil, List.append_nil] at hbegan
    exact ⟨step_sound hs hh.sound, by rw [hbegan]; exact hleft, by rw [hbegan]; exact hh.nodup⟩
  | some op =>
    -- the stage was at the front of the queue, and nowhere else
    obtain ⟨rfl, hc, c, queue, hqueue⟩ := begins_some hb
    have hmem : .operation op c ∈ h.s.queue := by rw [hqueue]; exact List.mem_cons_self
    have hcall := hh.sound.queue op c hmem
    have hrest : h'.s.queue = queue := by
      obtain ⟨j, queue', hq', hopen⟩ := (next_moves ht).opens hc
      cases hqueue.symm.trans hq'
      rw [hopen]
      unfold openJob
      split <;> rfl
    rw [hb, Option.toList_some, List.map_singleton] at hbegan
    refine ⟨step_sound hs hh.sound, fun p hp => ?_, ?_⟩
    · rw [hbegan] at hp
      rcases List.mem_append.mp hp with hp | hp
      · exact hleft p hp
      · rw [List.mem_singleton.mp hp]
        refine ⟨Nat.lt_of_lt_of_le (hh.sound.lt hcall) hops, ?_⟩
        unfold Unqueued
        rw [hrest]
        exact ((hh.sound.phase op c hcall).front hc hqueue).1
    · rw [hbegan, List.map_append, List.map_singleton]
      refine List.nodup_append.mpr ⟨hh.nodup, List.nodup_singleton _, fun a ha b hb he => ?_⟩
      obtain ⟨p, hp, rfl⟩ := List.mem_map.mp ha
      rw [List.mem_singleton.mp hb] at he
      exact (hh.left p hp).2 _ hmem (congrArg some he.symm)

theorem Once.flag {b b' : Bool} (hh : Once h) (hb : (op, b) ∈ h.began) (hb' : (op, b') ∈ h.began) : b = b' :=
  congrArg Prod.snd (List.inj_on_of_nodup_map hh.nodup hb hb' rfl)

end

end AetherGateway.Lora
