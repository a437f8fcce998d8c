/-
  AetherGateway.Lora.Lifecycle — `Start` and `Stop` of the driver, and the poll that
  `Start` sets up (see `AetherGateway.Lora.Operations`, `AetherGateway.Lora.Scripts`).

  `started_` is set by the last stage of the pipeline of `Start` and by nothing else;
  `Stop` does not take it back, nor the poll task and its listener. A `Start` makes its
  handshake, "+++" into AT mode and "+++" out of it, from outside of AT mode only.
  - `step_notified`, `step_started`: what a step does to the objects told success and to
    the flag.
  - `Head`: where the stage that sets the flag stands.
  - `Follows.handshake_iff`: the `Start` at its end made the handshake when it began
    outside of AT mode.
  - `lifecycle_iff`: in a run the flag says whether a `Start` was the last to succeed, and
    each `Start` that succeeds after a `Stop` makes the handshake again, exactly when no
    `Stop` succeeds in a started driver and no such `Start` begins in AT mode.
  - `started_after_stop`: such a `Stop`.
-/

import AetherGateway.Lora.Scripts

namespace AetherGateway.Lora

open AetherGateway.SerialQueue AetherGateway.Runs

variable {ae : Aether} {s t : St} {d : Driver} {op : Nat} {c : Call}

/-! ## Who is told success -/

def notified (d : Driver) : List Nat := (d.reports.filter (·.2 == .notify)).map (·.1)

def Stage.notifies : Stage → Option Nat
  | .notify op => some op
  | _ => none

/-- The object that the step tells success: that of a pipeline at its end, or of its stage. -/
def notifies (s : St) : Ev → Option Nat
  | .run => s.cur.bind fun k =>
    if k.act = none then
      match k.rest with
      | [] => k.handler.op?
      | x :: _ => x.notifies
    else none
  | _ => none

theorem notified_report (d : Driver) (op : Nat) (r : Report) :
    notified (report d op r) = notified d ++ if r = .notify then [op] else [] := by
  unfold notified report
  rw [List.filter_append, List.map_append]
  by_cases h : r = .notify
  · simp [h]
  · simp [h]

theorem notified_closed (d : Driver) (k : Handler) (o : Ended) :
    notified (closed d k o) = notified d ++ if o = .result then k.op?.toList else [] := by
  cases k with
  | operation op =>
    cases o with
    | result => exact notified_report _ op .notify
    | error => exact notified_report _ op .failed
    | stop => exact notified_report _ op .stop
  | init => cases o <;> exact (List.append_nil _).symm
  | nobody => cases o <;> exact (List.append_nil _).symm

theorem notified_actEnded (d : Driver) (k : Handler) (a : Act) (o : Ended) :
    notified (actEnded d k a o) = notified d := by
  cases a with
  | request r => rfl
  | operation op => rfl
  | openNetwork op a =>
    cases o with
    | result => exact (notified_report d op _).trans (List.append_nil _)
    | error => exact (notified_report d op _).trans (List.append_nil _)
    | stop => rfl

section
variable {x : Stage} {d' : Driver} {jobs : List Job} {r : Started Act}

theorem Starts.notified (h : Starts d x (d', jobs, r)) : notified d' = Lora.notified d ++ x.notifies.toList := by
  cases h with
  | notify op => exact notified_report d op .notify
  | _ => exact (List.append_nil _).symm

end

theorem moves_notified {e : Option Ended} {ev : Ev} (hm : Moves (machine ae) s e t) (hrun : e = none → ev = .run)
    (hans : e ≠ none → notifies s ev = none) : notified t.d = notified s.d ++ (notifies s ev).toList := by
  -- with nothing to tell
  have quiet : (ev = .run → notifies s .run = none) → notified s.d = notified s.d ++ (notifies s ev).toList := by
    intro hn
    have hnone : notifies s ev = none := by
      cases e with
      | none => rw [hrun rfl]; exact hn (hrun rfl)
      | some o => exact hans (by simp)
    rw [hnone]
    exact (List.append_nil _).symm
  have waits : ∀ {k : Cur Handler Stage Act} {a : Act}, s.cur = some k → k.act = some a → notifies s .run = none := by
    intro k a hc ha
    simp [notifies, hc, ha]
  cases hm with
  | skip hc _ _ => exact quiet fun _ => by simp [notifies, hc]
  | opened hc _ _ => exact quiet fun _ => by simp [notifies, hc]
  | finished hc ha hr =>
    rw [hrun rfl]
    refine (notified_closed _ _ _).trans ?_
    simp [notifies, hc, ha, hr]
  | waits hc ha hr hs =>
    rw [hrun rfl]
    refine (startStage_starts hs).notified.trans ?_
    simp [notifies, hc, ha, hr]
  | passed hc ha hr hs _ =>
    rw [hrun rfl]
    refine (startStage_starts hs).notified.trans ?_
    simp [notifies, hc, ha, hr]
  | nullFailed hc ha hr hs _ =>
    rw [hrun rfl]
    refine (notified_closed _ _ _).trans ?_
    rw [(startStage_starts hs).notified]
    simp [notifies, hc, ha, hr]
  | actResult hc ha _ => exact (notified_actEnded _ _ _ _).trans (quiet fun _ => waits hc ha)
  | actFailed hc ha _ ho =>
    refine (notified_closed _ _ _).trans ?_
    rw [if_neg ho, List.append_nil]
    exact (notified_actEnded _ _ _ _).trans (quiet fun _ => waits hc ha)

theorem step_notified {ev : Ev} (h : step ae s ev = some t) :
    notified t.d = notified s.d ++ (notifies s ev).toList := by
  cases ev with
  | call c =>
    cases h
    unfold notified
    rw [(call_frame s.d c).2.2.2.1]
    exact (List.append_nil _).symm
  | run => exact moves_notified (next_moves h) (fun _ => rfl) (fun h => absurd rfl h)
  | answer a =>
    obtain ⟨r, hr, h⟩ := Option.bind_eq_some_iff.mp h
    exact moves_notified (finishAct_moves h) (fun h => by cases h) (fun _ => rfl)
  | pollTask =>
    cases step_cases h with
    | pushed hp => exact (List.append_nil _).symm
  | xpoll handle flags =>
    cases step_cases h with
    | pushed hp => exact (List.append_nil _).symm

/-! ## The flag -/

section
variable {x : Stage} {d' : Driver} {jobs : List Job} {r : Started Act}

theorem Starts.started_same (h : Starts d x (d', jobs, r)) (hx : x ≠ .started) :
    d'.started = d.started ∧ d'.polls = d.polls := by
  cases h with
  | started => exact absurd rfl hx
  | _ => exact ⟨rfl, rfl⟩

theorem Starts.started_mono (h : Starts d x (d', jobs, r)) (hd : d.started = true) : d'.started = true := by
  by_cases hx : x = .started
  · subst hx
    cases h
    rfl
  · exact (h.started_same hx).1.trans hd

end

theorem moves_started {e : Option Ended} (hm : Moves (machine ae) s e t) (hx : nextStage s ≠ some .started) :
    t.d.started = s.d.started ∧ t.d.polls = s.d.polls := by
  refine hm.data (P := fun d => d.started = s.d.started ∧ d.polls = s.d.polls) ⟨rfl, rfl⟩
    (fun k x rest d jobs r hc ha hr hs => ?_) (fun k a o _ _ => ?_) (fun k d o _ ⟨hst, hp⟩ => ?_)
  · refine (startStage_starts hs).started_same fun he => hx ?_
    rw [nextStage_some hc ha hr, he]
  · exact ⟨actEnded_frame Driver.started (fun _ _ _ _ => rfl) _ _ _ _,
      actEnded_frame Driver.polls (fun _ _ _ _ => rfl) _ _ _ _⟩
  · exact ⟨(closed_frame Driver.started (fun _ _ _ => rfl) d k.handler o).trans hst,
      (closed_frame Driver.polls (fun _ _ _ => rfl) d k.handler o).trans hp⟩

/-- A step of the queue that is not a `run` starts no stage. -/
theorem nextStage_ne {e : Option Ended} {ev : Ev} {x : Stage} (hx : ev = .run → nextStage s ≠ some x)
    (hrun : e = none → ev = .run) (hout : ∀ o, e = some o → o ≠ .stop ∧ ∃ r, outstanding s = some r) :
    nextStage s ≠ some x := by
  cases e with
  | none => exact hx (hrun rfl)
  | some o =>
    obtain ⟨-, r, hr⟩ := hout o rfl
    obtain ⟨k, hc, ha⟩ := outstanding_some hr
    simp [nextStage, hc, ha]

/-- Only a step that starts the last stage of `Start` changes the flag or sets up a poll. -/
theorem step_started {ev : Ev} (h : step ae s ev = some t) (hx : ev = .run → nextStage s ≠ some .started) :
    t.d.started = s.d.started ∧ t.d.polls = s.d.polls := by
  rcases step_split h with ⟨e, hm, hrun, hout⟩ | hb
  · exact moves_started hm (nextStage_ne hx hrun hout)
  · rw [hb.d]
    exact ⟨rfl, rfl⟩

/-! ## The stage that sets the flag -/

def startStages : List Stage := [.enterAtMode, .exitAtMode, .started]

def Stage.ofStart : Stage → Bool
  | .notify _ => true
  | .started => true
  | _ => false

theorem inner_ofStart {x : Stage} (h : x.inner) : x.ofStart = false := by
  cases x with
  | notify op => cases h
  | started => cases h
  | _ => rfl

theorem callPipeline_ofStart {k : Handler} {l : List Stage} (h : callPipeline d op c = some (k, l)) (hc : c ≠ .start) :
    ∀ x ∈ l, x.ofStart = false := by
  have single : ∀ {y : Stage}, y.inner → ∀ x ∈ [Stage.enterAtMode, y, .exitAtMode], x.ofStart = false := by
    intro y hy x hx
    simp only [List.mem_cons, List.not_mem_nil, or_false] at hx
    rcases hx with rfl | rfl | rfl
    · rfl
    · exact inner_ofStart hy
    · rfl
  cases c with
  | start => exact absurd rfl hc
  | stop => cases h; exact single (by decide)
  | openNetwork protocol host port =>
    obtain ⟨l', hl, he⟩ := Option.map_eq_some_iff.mp h
    cases he
    intro x hx
    cases protocol with
    | tcp => cases hl; rw [List.mem_singleton.mp hx]; rfl
    | udp => cases hl; rw [List.mem_singleton.mp hx]; rfl
    | other => cases hl
  | setPowerSaveParam psp =>
    cases h
    intro x hx
    simp only [setPowerSaveParam, List.mem_cons, List.not_mem_nil, or_false] at hx
    rcases hx with rfl | rfl | rfl | rfl | rfl | rfl | rfl | rfl
    · rfl
    · rfl
    · rfl
    · rfl
    · exact inner_ofStart (setLoraGatewayBandWidth_inner _)
    · rfl
    · rfl
    · rfl
  | setLoraGatewayAddress address => cases h; exact single (inner_append _ (by decide))
  | setLoraGatewayChannel channel => cases h; exact single (inner_append _ (by decide))
  | setLoraGatewayCRCCheck crcCheck => cases h; exact single (inner_append _ (by decide))
  | setLoraGatewayIQSignalInversion signalInversion => cases h; exact single (inner_append _ (by decide))

theorem init_ofStart (i : LoraGatewayInit) : ∀ x ∈ init i, x.ofStart = false := by
  intro x hx
  simp only [init, setupLoraNet, List.mem_append, List.mem_cons, List.not_mem_nil, or_false] at hx
  rcases hx with (((((rfl | rfl) | hx) | rfl) | rfl | rfl | rfl | rfl) | rfl | rfl)
  · rfl
  · rfl
  · exact inner_ofStart (setupSerialPort_inner _ x hx)
  all_goals rfl

/-- The stages of `Start` stand in its own pipelines, by the flag when they are made. -/
theorem pipeline_ofStart {j : Job} {k : Handler} {l : List Stage} (h : pipeline d j = some (k, l)) :
    (∀ x ∈ l, x.ofStart = false) ∨ ∃ op, (d.started = true ∧ l = [.notify op]) ∨
      (d.started = false ∧ k = .operation op ∧ l = startStages) := by
  cases j with
  | init => cases h; exact Or.inl (init_ofStart _)
  | poll => cases h; exact Or.inl fun x hx => by rw [List.mem_singleton.mp hx]; rfl
  | readPacket connection => cases h
  | operation op c =>
    by_cases hc : c = .start
    · subst hc
      have hs : start d op = (k, l) := Option.some.inj h
      unfold start at hs
      split at hs
      · cases hs
        exact Or.inr ⟨op, Or.inl ⟨‹_›, rfl⟩⟩
      · cases hs
        exact Or.inr ⟨op, Or.inr ⟨eq_false_of_ne_true ‹_›, rfl, rfl⟩⟩
    · exact Or.inl (callPipeline_ofStart h hc)

/-- The stages of `Start` in the pipeline at the head. -/
structure Head (d : Driver) (k : Cur Handler Stage Act) : Prop where
  notify : ∀ op, .notify op ∈ k.ran ++ k.rest → d.started = true
  stages : .started ∈ k.ran ++ k.rest → (∃ op, k.handler = .operation op) ∧ k.ran ++ k.rest = startStages
  rest : .started ∈ k.rest → d.started = false
  ran : .started ∈ k.ran → k.rest = [] ∧ k.act = none

theorem startStages_split {ran rest : List Stage} {x : Stage} (h : ran ++ x :: rest = startStages) :
    (x = .started → rest = []) ∧ .started ∉ ran := by
  unfold startStages at h
  rcases ran with _ | ⟨a, _ | ⟨b, _ | ⟨c, ran⟩⟩⟩
  · simp only [List.nil_append, List.cons.injEq] at h
    exact ⟨fun hx => (by rw [hx] at h; cases h.1), List.not_mem_nil⟩
  · simp only [List.cons_append, List.nil_append, List.cons.injEq] at h
    obtain ⟨rfl, rfl, -⟩ := h
    exact ⟨fun hx => (by cases hx), by decide⟩
  · simp only [List.cons_append, List.nil_append, List.cons.injEq] at h
    obtain ⟨rfl, rfl, rfl, rfl⟩ := h
    exact ⟨fun _ => rfl, by decide⟩
  · have hl := congrArg List.length h
    simp at hl

theorem Head.of_none {k : Cur Handler Stage Act} (h : ∀ x ∈ k.ran ++ k.rest, x.ofStart = false) : Head d k := by
  have hn : .started ∉ k.ran ++ k.rest := fun hm => by cases h _ hm
  refine ⟨fun op hm => (by cases h _ hm), fun hm => absurd hm hn, fun hm => ?_, fun hm => ?_⟩
  · exact absurd (List.mem_append_right _ hm) hn
  · exact absurd (List.mem_append_left _ hm) hn

theorem moves_head {e : Option Ended} (hm : Moves (machine ae) s e t) (hs : ∀ k, s.cur = some k → Head s.d k) :
    ∀ k, t.cur = some k → Head t.d k := by
  refine hm.head (fun j _ k stages _ _ hp => ?_) (fun k x rest d jobs r act hc _ hr hst hact => ?_)
    (fun k a hc ha _ => ?_)
  · rcases pipeline_ofStart hp with hn | ⟨op, ⟨hd, rfl⟩ | ⟨hd, rfl, rfl⟩⟩
    · exact .of_none hn
    · exact ⟨fun _ _ => hd, fun hm => absurd hm (by simp), fun hm => absurd hm (by simp), fun hm => by cases hm⟩
    · exact ⟨fun op' hm => absurd hm (by simp [startStages]), fun _ => ⟨⟨op, rfl⟩, rfl⟩, fun _ => hd,
        fun hm => by cases hm⟩
  · obtain ⟨hnotify, hstages, hrest, hran⟩ := hs k hc
    rw [hr] at hnotify hstages hrest hran
    have hst := startStage_starts hst
    have happ : k.ran ++ x :: rest = (k.ran ++ [x]) ++ rest := List.append_cons ..
    refine ⟨fun op hm => hst.started_mono (hnotify op (by rw [happ]; exact hm)), fun hm => ?_, fun hm => ?_, fun hm => ?_⟩
    · obtain ⟨hk, hl⟩ := hstages (by rw [happ]; exact hm)
      exact ⟨hk, happ.symm.trans hl⟩
    · obtain ⟨hlast, -⟩ := startStages_split (hstages (by simp [hm])).2
      have hx : x ≠ .started := by
        intro hx
        have hm : .started ∈ rest := hm
        rw [hlast hx] at hm
        cases hm
      exact (hst.started_same hx).1.trans (hrest (List.mem_cons_of_mem _ hm))
    · obtain ⟨hlast, hnran⟩ := startStages_split (hstages (by rw [happ]; exact List.mem_append_left _ hm)).2
      have hx : x = .started := ((List.mem_append.mp hm).resolve_left hnran |> List.mem_singleton.mp).symm
      refine ⟨hlast hx, ?_⟩
      cases act with
      | none => rfl
      | some a =>
        cases hact a rfl
        subst hx
        cases hst
  · obtain ⟨hnotify, hstages, hrest, hran⟩ := hs k hc
    have hflag := actEnded_frame Driver.started (fun _ _ _ _ => rfl) s.d k.handler a .result
    exact ⟨fun op hm => hflag.trans (hnotify op hm), hstages, fun hm => hflag.trans (hrest hm),
      fun hm => ⟨(hran hm).1, rfl⟩⟩

theorem step_head {ev : Ev} (h : step ae s ev = some t) (hs : ∀ k, s.cur = some k → Head s.d k) :
    ∀ k, t.cur = some k → Head t.d k := by
  rcases step_split h with ⟨e, hm, -⟩ | hb
  · exact moves_head hm hs
  · intro k hk
    rw [hb.cur] at hk
    rw [hb.d]
    exact ⟨(hs k hk).notify, (hs k hk).stages, (hs k hk).rest, (hs k hk).ran⟩

/-! ## Completed starts and stops -/

def Call.lifecycle : Call → Bool
  | .start => true
  | .stop => true
  | _ => false

/-- The starts and stops that completed successfully, in order. -/
def completed (h : Logged) : List Call :=
  (notified h.s.d).filterMap fun op => (h.calls[op]?).filter Call.lifecycle

def lastCompleted (h : Logged) : Option Call := (completed h).getLast?

def completes (h : Logged) (ev : Ev) : Option Call :=
  (notifies h.s ev).bind fun op => (h.calls[op]?).filter Call.lifecycle

section
variable {h h' : Logged} {ev : Ev}

theorem notified_told (hm : op ∈ notified d) : told d op ≠ [] := by
  obtain ⟨p, hp, rfl⟩ := List.mem_map.mp hm
  exact List.ne_nil_of_mem (List.mem_map_of_mem (List.mem_filter.mpr ⟨(List.mem_filter.mp hp).1, beq_self_eq_true p.1⟩))

theorem notifies_some (hn : notifies s ev = some op) : ev = .run ∧ ∃ k, s.cur = some k ∧ k.act = none ∧
    (k.rest = [] ∧ k.handler = .operation op ∨ ∃ rest, k.rest = .notify op :: rest) := by
  cases ev with
  | run =>
    refine ⟨rfl, ?_⟩
    obtain ⟨k, hc, hk⟩ := Option.bind_eq_some_iff.mp hn
    by_cases ha : k.act = none
    · rw [if_pos ha] at hk
      refine ⟨k, hc, ha, ?_⟩
      cases hr : k.rest with
      | nil =>
        rw [hr] at hk
        cases hkop : k.handler with
        | operation op' => rw [hkop] at hk; cases hk; exact Or.inl ⟨rfl, rfl⟩
        | init => rw [hkop] at hk; cases hk
        | nobody => rw [hkop] at hk; cases hk
      | cons x rest =>
        rw [hr] at hk
        cases x with
        | notify op' => cases hk; exact Or.inr ⟨rest, rfl⟩
        | _ => cases hk
    · rw [if_neg ha] at hk; cases hk
  | _ => cases hn

/-- Only a `Start` has a stage that tells its object. -/
theorem Phase.start {k : Cur Handler Stage Act} {rest : List Stage} (hp : Phase s op c) (hc : s.cur = some k)
    (hr : k.rest = .notify op :: rest) : c = .start := by
  have away : ¬ Away s op := fun ha => ha k hc (Or.inr (Or.inl ⟨.notify op, by simp [hr], rfl⟩))
  cases hp with
  | queued _ _ _ ha _ _ => exact absurd ha away
  | @running k' hc' hk hl _ _ _ =>
    cases hc.symm.trans hc'
    obtain ⟨d, hl⟩ := hl
    rcases callPipeline_cases hl with ⟨-, hstage, -⟩ | ⟨h, -⟩ | ⟨-, -, hk, -⟩
    · cases hstage (.notify op) (by simp [hr])
    · exact h
    · cases hk
  | notifies hcall _ _ _ => exact hcall
  | notified hcall _ _ _ => exact hcall
  | opens _ hx hc' _ _ =>
    cases hc.symm.trans hc'
    cases hr
    rcases hx with ⟨host, port, hx⟩ | ⟨host, port, hx⟩ <;> cases hx
  | opening _ _ hc' _ _ => cases hc.symm.trans hc'; cases hr
  | done hf _ => exact absurd hf.2 away

theorem Sound.completed_step (hh : Sound h) (hs : h.step ae ev = some h') :
    completed h' = completed h ++ (completes h ev).toList := by
  have hcalls : ∀ {op : Nat}, op < h.calls.length → h'.calls[op]? = h.calls[op]? := fun hop =>
    (Logged.calls_step hs (List.getElem?_eq_getElem hop)).trans (List.getElem?_eq_getElem hop).symm
  unfold completed completes
  rw [step_notified (Logged.step_some hs).1, List.filterMap_append]
  congr 1
  · refine List.filterMap_congr fun op hop => ?_
    have hlt : op < h.calls.length := by
      by_contra hge
      rw [hh.length] at hge
      exact notified_told hop (hh.fresh op (Nat.le_of_not_lt hge)).2.2.1
    rw [hcalls hlt]
  · cases hn : notifies h.s ev with
    | none => rfl
    | some op =>
      obtain ⟨-, k, hc, -, hk⟩ := notifies_some hn
      have hnames : Names k op := by
        rcases hk with ⟨-, hk⟩ | ⟨rest, hr⟩
        · exact Or.inl (by rw [hk]; rfl)
        · exact Or.inr (Or.inl ⟨.notify op, by simp [hr], rfl⟩)
      obtain ⟨c, hcall, -⟩ := hh.called hc hnames
      rw [Option.toList_some, Option.bind_some, List.filterMap_cons, hcalls (List.getElem?_eq_some_iff.mp hcall).1]
      cases (h.calls[op]?).filter Call.lifecycle <;> rfl

theorem completes_lifecycle (hc : completes h ev = some c) : c = .start ∨ c = .stop := by
  obtain ⟨op, -, hcall⟩ := Option.bind_eq_some_iff.mp hc
  have hl := (Option.filter_eq_some_iff.mp hcall).2
  cases c with
  | start => exact Or.inl rfl
  | stop => exact Or.inr rfl
  | _ => cases hl

/-! ## Every run -/

/-- Between two operations the driver is started exactly when a `Start` was the last to
    succeed, and after a `Stop` it does not poll. -/
structure Lifecycle (h : Logged) : Prop where
  started : h.s.cur = none → (h.s.d.started = true ↔ lastCompleted h = some .start)
  polling : h.s.cur = none → lastCompleted h = some .stop → h.s.d.polls = 0
  once : h.s.d.polls ≤ 1

/-- The two requests of `Start`, acknowledged. -/
def handshake : List (AtRequest × Ended) :=
  [(⟨"+++", [waitEntryAt]⟩, .result), (⟨"+++", [waitExitAt, waitPowerOn]⟩, .result)]

/-- A `Start` that succeeds after a `Stop` has made the handshake again, and its own last
    stage has set up the poll. -/
def Restarts (h : Logged) (ev : Ev) (_ : Logged) : Prop :=
  completes h ev = some .start → lastCompleted h = some .stop →
    ∃ op k, notifies h.s ev = some op ∧ answersOf h.s.d op = handshake ∧
      h.s.cur = some k ∧ k.handler = .operation op ∧ k.ran = startStages ∧ h.s.d.polls = 1

/-- A `Stop` that succeeds finds the driver not started. -/
def StopsUnstarted (h : Logged) (ev : Ev) : Prop := completes h ev = some .stop → h.s.d.started = false

/-- The stage of a `Start` that succeeds after a `Stop` was not made in AT mode. -/
def StartsOutside (h : Logged) (ev : Ev) : Prop :=
  completes h ev = some .start → lastCompleted h = some .stop →
    ∀ op, notifies h.s ev = some op → (op, true) ∉ h.began

structure Life (h : Logged) : Prop where
  sound : Sound h
  head : ∀ k, h.s.cur = some k → Head h.s.d k
  polls : h.s.d.polls = if h.s.d.started then 1 else 0
  flag : h.s.d.started = true ↔ lastCompleted h = some .start ∨ ∃ k, h.s.cur = some k ∧ .started ∈ k.ran

/-- The pipeline that tells the object of a `Start` its end. -/
theorem callPipeline_start {l : List Stage} (h : callPipeline d op .start = some (.operation op, l)) :
    l = startStages := by
  have hs : start d op = (.operation op, l) := Option.some.inj h
  unfold start at hs
  split at hs
  · cases hs
  · cases hs; rfl

/-- Behind the stage that sets the flag its `Start` succeeds. -/
theorem Life.succeeds {k : Cur Handler Stage Act} (hh : Life h) (hc : h.s.cur = some k) (hm : .started ∈ k.ran) :
    k.act = none ∧ completes h .run = some .start := by
  obtain ⟨hr, ha⟩ := (hh.head k hc).ran hm
  obtain ⟨⟨op, hk⟩, -⟩ := (hh.head k hc).stages (List.mem_append_left _ hm)
  obtain ⟨c, hcall, hp⟩ := hh.sound.called hc (Or.inl (by rw [hk]; rfl))
  obtain ⟨⟨d, hl⟩, -, -⟩ := hp.pipeline hc hk
  have hstart : c = .start := by
    by_contra hne
    cases callPipeline_ofStart hl hne .started (List.mem_append_left _ hm)
  refine ⟨ha, ?_⟩
  subst hstart
  simp [completes, notifies, hc, ha, hr, hk, Handler.op?, hcall, Option.filter, Call.lifecycle]

structure StartEnds (s : St) (op : Nat) (k : Cur Handler Stage Act) : Prop where
  cur : s.cur = some k
  handler : k.handler = .operation op
  ran : k.ran = startStages
  rest : k.rest = []
  act : k.act = none

/-- A `Start` succeeds in a started driver, at the end of its own stages or with the driver
    started before. -/
theorem Life.starts (hh : Life h) (hcomp : completes h ev = some .start) :
    h.s.d.started = true ∧ ∃ op k, notifies h.s ev = some op ∧ h.calls[op]? = some .start ∧ h.s.cur = some k ∧
      (StartEnds h.s op k ∨ .started ∉ k.ran) := by
  obtain ⟨op, hn, hcall⟩ := Option.bind_eq_some_iff.mp hcomp
  obtain ⟨hcall, -⟩ := Option.filter_eq_some_iff.mp hcall
  obtain ⟨-, k, hc, ha, ⟨hr, hk⟩ | ⟨rest, hr⟩⟩ := notifies_some hn
  · obtain ⟨⟨d, hl⟩, -, -⟩ := (hh.sound.phase op _ hcall).pipeline hc hk
    rw [hr, List.append_nil] at hl
    have hran := callPipeline_start hl
    refine ⟨hh.flag.mpr (Or.inr ⟨k, hc, by rw [hran]; decide⟩), op, k, hn, hcall, hc, Or.inl ⟨hc, hk, hran, hr, ha⟩⟩
  · refine ⟨(hh.head k hc).notify op (by simp [hr]), op, k, hn, hcall, hc, Or.inr fun hm => ?_⟩
    rw [((hh.head k hc).ran hm).1] at hr
    cases hr

/-- After a `Stop` it is at the end of its own stages. -/
theorem Life.restarted (hh : Life h) (hcomp : completes h ev = some .start) (hlast : lastCompleted h = some .stop) :
    h.s.d.polls = 1 ∧ ∃ op k, notifies h.s ev = some op ∧ h.calls[op]? = some .start ∧ StartEnds h.s op k := by
  obtain ⟨hst, op, k, hn, hcall, hc, hend | hran⟩ := hh.starts hcomp
  · exact ⟨by rw [hh.polls, hst]; rfl, op, k, hn, hcall, hend⟩
  · rcases hh.flag.mp hst with hl | ⟨k', hc', hm⟩
    · cases hlast.symm.trans hl
    · cases hc.symm.trans hc'
      exact absurd hm hran

/-- The `Start` at its end has made the handshake when its stage was made outside of AT
    mode; in AT mode it wrote the second "+++" alone. -/
theorem Follows.handshake_iff {b : Bool} {k : Cur Handler Stage Act} (hf : Follows ae b op startStages d k)
    (hr : k.rest = []) (ha : k.act = none) : answersOf d op = handshake ↔ b = false := by
  have hscript : script ae b startStages = _ := script_bracket ae [] b [.started]
  rw [hf.ends ha hr] at hscript
  rw [← map_acked hf.acked]
  cases b with
  | false =>
    rw [if_neg (by simp)] at hscript
    refine iff_of_true ?_ rfl
    rw [(Prod.mk.inj hscript).1]
    rfl
  | true =>
    split at hscript
    · cases (Prod.mk.inj hscript).2
    · refine iff_of_false (fun h => ?_) (by simp)
      rw [(Prod.mk.inj hscript).1] at h
      have hlen : 1 = 2 := congrArg List.length h
      cases hlen

/-- The flag that the stage of the object was made with decides. -/
theorem Scripts.handshake_iff {k : Cur Handler Stage Act} (hs : Scripts ae h) (ho : Once h)
    (hcall : h.calls[op]? = some .start) (hk : StartEnds h.s op k) :
    answersOf h.s.d op = handshake ↔ (op, true) ∉ h.began := by
  obtain ⟨b, l, hb, hf⟩ := hs.running op .start k hcall hk.cur hk.handler
  obtain rfl : l = startStages := by rw [← hf.stages, hk.rest, List.append_nil, hk.ran]
  rw [hf.handshake_iff hk.rest hk.act]
  constructor
  · rintro rfl htrue
    cases ho.flag hb.1 htrue
  · intro hn
    refine eq_false_of_ne_true fun ht => hn ?_
    rw [← ht]
    exact hb.1

/-- `Init` fails in AT mode and `Stop` leaves it; the next operation fails in AT mode, so
    that the `Start` behind it makes half of the handshake. -/
example :
    let es := [Ev.call .stop, .call (.setLoraGatewayAddress 7), .call .start, .run, .run, .answer .timeout,
      .run, .run, .run, .answer .expected, .run, .answer .expected, .run, .run, .run, .answer .timeout,
      .run, .run, .run, .answer .expected, .run]
    ∃ h, exec (Logged.step ⟨true, fun _ => none⟩) (.construct .default) es = some h ∧
      completes h .run = some .start ∧ lastCompleted h = some .stop ∧ (2, true) ∈ h.began ∧
      answersOf h.s.d 2 = [(⟨"+++", [waitExitAt, waitPowerOn]⟩, .result)] :=
  ⟨_, rfl, rfl, rfl, by decide, rfl⟩

/-- A stage of the head that has started was one before the step, or is the one the step starts. -/
theorem moves_ran {e : Option Ended} (hm : Moves (machine ae) s e t) (hx : nextStage s ≠ some .started)
    {k : Cur Handler Stage Act} (hc : t.cur = some k) (hk : .started ∈ k.ran) :
    ∃ k, s.cur = some k ∧ .started ∈ k.ran := by
  refine hm.head (P := fun _ k => .started ∈ k.ran → ∃ k, s.cur = some k ∧ .started ∈ k.ran)
    (fun j _ k stages _ _ _ hk => (by cases hk)) (fun k x rest d jobs r act hc ha hr _ _ hk => ⟨k, hc, ?_⟩)
    (fun k a hc _ _ hk => ⟨k, hc, hk⟩) k hc hk
  refine (List.mem_append.mp hk).resolve_right fun hm => hx ?_
  rw [nextStage_some hc ha hr, List.mem_singleton.mp hm]

/-- The stage that sets the flag. -/
theorem step_sets (hx : nextStage s = some .started) (h : step ae s .run = some t) :
    t.d.started = true ∧ t.d.polls = s.d.polls + 1 ∧ ∃ k, t.cur = some k ∧ .started ∈ k.ran := by
  obtain ⟨k, rest, hc, ha, hr⟩ := nextStage_cur hx
  cases (next_moves h).starts hc ha hr
  exact ⟨rfl, rfl, _, rfl, by simp⟩

theorem Sound.last_step (hh : Sound h) (hs : h.step ae ev = some h') :
    lastCompleted h' = (completes h ev).or (lastCompleted h) := by
  unfold lastCompleted
  rw [hh.completed_step hs]
  cases completes h ev with
  | none => simp
  | some c => simp

theorem Life.step (hh : Life h) (hg : StopsUnstarted h ev) (hs : h.step ae ev = some h') : Life h' := by
  have ht := (Logged.step_some hs).1
  have hsound := step_sound hs hh.sound
  have hhead := step_head ht hh.head
  have hlast := hh.sound.last_step hs
  by_cases hst : ev = .run ∧ nextStage h.s = some .started
  · -- the flag is set
    obtain ⟨rfl, hx⟩ := hst
    obtain ⟨hstarted, hpolls, hk⟩ := step_sets hx ht
    obtain ⟨k, rest, hc, -, hr⟩ := nextStage_cur hx
    have hold := (hh.head k hc).rest (by simp [hr])
    refine ⟨hsound, hhead, ?_, iff_of_true hstarted (Or.inr hk)⟩
    rw [hpolls, hh.polls, hold, hstarted]
    rfl
  · have hx : ev = .run → nextStage h.s ≠ some .started := fun hev hx => hst ⟨hev, hx⟩
    obtain ⟨hstarted, hpolls⟩ := step_started ht hx
    refine ⟨hsound, hhead, by rw [hpolls, hstarted]; exact hh.polls, ?_⟩
    rw [hstarted, hlast]
    have back : (∃ k, h'.s.cur = some k ∧ .started ∈ k.ran) → h.s.d.started = true := by
      intro ⟨k, hc, hm⟩
      refine hh.flag.mpr (Or.inr ?_)
      rcases step_split ht with ⟨e, hmoves, hrun, hout⟩ | hb
      · exact moves_ran hmoves (nextStage_ne hx hrun hout) hc hm
      · exact ⟨k, by rw [← hb.cur]; exact hc, hm⟩
    cases hcomp : completes h ev with
    | none =>
      rw [Option.none_or]
      constructor
      · intro hst
        refine (hh.flag.mp hst).imp_right fun ⟨k, hc, hm⟩ => ?_
        obtain ⟨ha, hsucc⟩ := hh.succeeds hc hm
        rcases step_split ht with ⟨e, -, hrun, hout⟩ | hb
        · cases e with
          | none => rw [hrun rfl, hsucc] at hcomp; cases hcomp
          | some o =>
            obtain ⟨-, r, hr⟩ := hout o rfl
            obtain ⟨k', hc', ha'⟩ := outstanding_some hr
            cases hc.symm.trans hc'
            cases ha.symm.trans ha'
        · exact ⟨k, hb.cur.trans hc, hm⟩
      · rintro (hl | hk)
        · exact hh.flag.mpr (Or.inl hl)
        · exact back hk
    | some c =>
      rw [Option.some_or]
      rcases completes_lifecycle hcomp with rfl | rfl
      · exact iff_of_true (hh.starts hcomp).1 (Or.inl rfl)
      · have hun := hg hcomp
        refine iff_of_false (by rw [hun]; exact Bool.false_ne_true) ?_
        rintro (hl | hk)
        · cases hl
        · rw [back hk] at hun; cases hun

theorem Life.lifecycle (hh : Life h) : Lifecycle h := by
  have hflag : h.s.cur = none → (h.s.d.started = true ↔ lastCompleted h = some .start) := by
    intro hc
    rw [hh.flag]
    exact or_iff_left fun ⟨k, hk, _⟩ => by cases hc.symm.trans hk
  refine ⟨hflag, fun hc hl => ?_, ?_⟩
  · have hun : h.s.d.started = false := by
      refine eq_false_of_ne_true fun hst => ?_
      rw [(hflag hc).mp hst] at hl
      cases hl
    rw [hh.polls, hun]
    rfl
  · rw [hh.polls]
    split <;> omega

theorem Life.restarts (hh : Life h) (hs : Scripts ae h) (ho : Once h) (hout : StartsOutside h ev) :
    Restarts h ev h' := by
  intro hcomp hlast
  obtain ⟨hpolls, op, k, hn, hcall, hk⟩ := hh.restarted hcomp hlast
  have hans := (hs.handshake_iff ho hcall hk).mpr (hout hcomp hlast op hn)
  exact ⟨op, k, hn, hans, hk.cur, hk.handler, hk.ran, hpolls⟩

/-- A `Start` that begins in AT mode makes no handshake. -/
theorem Life.skipped (hh : Life h) (hs : Scripts ae h) (ho : Once h) (hout : ¬ StartsOutside h ev) :
    ∃ h', h.step ae ev = some h' ∧ ¬ Restarts h ev h' := by
  simp only [StartsOutside, Classical.not_imp, not_forall, not_not] at hout
  obtain ⟨hcomp, hlast, op, hn, hb⟩ := hout
  obtain ⟨-, op', k, hn', hcall, hk⟩ := hh.restarted hcomp hlast
  cases hn.symm.trans hn'
  obtain ⟨rfl, -⟩ := notifies_some hn
  have hstep : h.step ae .run = some _ := congrArg (Option.map _) (next_closes hk.cur hk.act hk.rest)
  refine ⟨_, hstep, fun hr => ?_⟩
  obtain ⟨op', k', hn', hans, -⟩ := hr hcomp hlast
  cases hn.symm.trans hn'
  exact (hs.handshake_iff ho hcall hk).mp hans hb

/-- A `Stop` that succeeds in a started driver leaves it started. -/
theorem Life.stopped (hh : Life h) (hg : ¬ StopsUnstarted h ev) : ∃ h', h.step ae ev = some h' ∧ ¬ Lifecycle h' := by
  obtain ⟨hcomp, hst⟩ := Classical.not_imp.mp hg
  obtain ⟨op, hn, hcall⟩ := Option.bind_eq_some_iff.mp hcomp
  obtain ⟨hcall, -⟩ := Option.filter_eq_some_iff.mp hcall
  obtain ⟨rfl, k, hc, ha, ⟨hr, hk⟩ | ⟨rest, hr⟩⟩ := notifies_some hn
  · have hs : h.step ae .run = some _ := congrArg (Option.map _) (next_closes hc ha hr)
    refine ⟨_, hs, fun hlife => ?_⟩
    have hclosed := closed_frame Driver.started (fun _ _ _ => rfl) h.s.d k.handler .result
    have hl := (hlife.started rfl).mp (hclosed.trans (eq_true_of_ne_false hst))
    rw [hh.sound.last_step hs, hcomp] at hl
    cases hl
  · cases (hh.sound.phase op _ hcall).start hc hr

end

theorem construct_life (i : LoraGatewayInit) : Life (.construct i) where
  sound := construct_sound i
  head k hk := by cases hk
  polls := rfl
  flag := iff_of_false (by exact Bool.false_ne_true) (by rintro (h | ⟨k, hk, _⟩) <;> contradiction)

/-- In a run the flag follows the last completed `Start` or `Stop`, and polling with it, and
    a `Start` that succeeds after a `Stop` makes the handshake again, exactly when no `Stop`
    succeeds in a started driver and no such `Start` begins in AT mode. -/
theorem lifecycle_iff (ae : Aether) (i : LoraGatewayInit) (es : List Ev) :
    Always (Logged.step ae) Lifecycle (.construct i) es ∧ Along (Logged.step ae) Restarts (.construct i) es ↔
      Meets (Logged.step ae) (fun h ev => StopsUnstarted h ev ∧ StartsOutside h ev) (.construct i) es := by
  refine always_along_iff_meets (I := fun h => Life h ∧ Scripts ae h ∧ Once h) (fun h hh => hh.1.lifecycle)
    ?_ ?_ ?_ ⟨construct_life i, construct_scripts i, construct_once i⟩
  · intro h ev h' ⟨hh, hs, ho⟩ hg ht
    exact ⟨hh.step hg.1 ht, hs.step ht, ho.step ht⟩
  · intro h ev h' ⟨hh, hs, ho⟩ hg _
    exact hh.restarts hs ho hg.2
  · intro h ev ⟨hh, hs, ho⟩ hg
    by_cases hun : StopsUnstarted h ev
    · obtain ⟨h', ht, hr⟩ := hh.skipped hs ho fun hout => hg ⟨hun, hout⟩
      exact ⟨h', ht, fun _ => hr⟩
    · obtain ⟨h', ht, hl⟩ := hh.stopped hun
      exact ⟨h', ht, fun hlife => absurd hlife hl⟩

/-- `Init` fails in AT mode; then `Start` and `Stop` succeed. -/
theorem started_after_stop :
    let es := [Ev.call .start, .call .stop, .run, .run, .answer .timeout,
      .run, .run, .run, .answer .expected, .run, .run,
      .run, .run, .answer .expected, .run, .answer .expected, .run, .answer .expected, .run]
    ¬ Always (Logged.step ⟨true, fun flags => flags.toNat?.map UInt32.ofNat⟩) Lifecycle (.construct .default) es := by
  intro es h
  have hl := always_exec h rfl
  cases (hl.started rfl).mp rfl

end AetherGateway.Lora
