/-
  AetherGateway.Lora.Drain — the driver's queue runs empty or stalls (see
  `AetherGateway.Lora.Driver`).

  - `never_polls`: nothing ever fills `connections_`, so in every run the poll task and its
    listener do nothing: no poll is written, no packet is read.
  - `drains`: a run has at most 116 steps of the driver and its module, and 18 more for
    each call; the driver rests when it is idle or stalled, and when it is idle every
    operation has been settled.
  - `comes_to_rest`: however the module answers, from every reachable state so many steps
    lead there.
-/

import AetherGateway.Progress
import AetherGateway.SerialQueue.Weights
import AetherGateway.Lora.Settlement

namespace AetherGateway.Lora

open AetherGateway.SerialQueue AetherGateway.Runs

variable {ae : Aether} {s t : St} {d : Driver}

/-! ## Polling -/

def Job.polls : Job → Bool
  | .poll => true
  | .readPacket _ => true
  | _ => false

def Stage.polls : Stage → Bool
  | .poll => true
  | _ => false

structure Unpolled (s : St) : Prop where
  connections : s.d.connections = []
  queue : ∀ j ∈ s.queue, j.polls = false
  head : ∀ c, s.cur = some c → ∀ x ∈ c.rest, x.polls = false
  wire : ∀ w ∈ s.d.wire, w.request.command.toList.head? ≠ some '#'

/-- The poll task and its listener do nothing. -/
def PollsInVain (s : St) (ev : Ev) (t : St) : Prop :=
  ev = .pollTask ∨ (∃ handle flags, ev = .xpoll handle flags) → t = s

theorem requestOrNull_polls (command : Option String) : (requestOrNull command).polls = false := by
  cases command <;> rfl

theorem pipeline_polls {j : Job} {k : Handler} {l : List Stage} (hj : j.polls = false) (h : pipeline d j = some (k, l)) :
    ∀ x ∈ l, x.polls = false := by
  have all : ∀ {l : List Stage}, l.all (fun x => !x.polls) = true → ∀ x ∈ l, x.polls = false := by
    intro l hl x hx
    simpa using List.all_eq_true.mp hl x hx
  cases j with
  | poll => cases hj
  | readPacket => cases hj
  | init =>
    cases h
    refine all ?_
    simp only [init, setupSerialPort, setBaudRate, setParity, setStopBits, List.all_append, List.all_cons,
      requestOrNull_polls]
    rfl
  | operation op c =>
    cases c with
    | start =>
      simp only [pipeline, callPipeline, start, Option.some.injEq] at h
      split at h <;> cases h <;> exact all rfl
    | openNetwork protocol host port => cases protocol <;> cases h <;> exact all rfl
    | setPowerSaveParam psp =>
      cases h
      obtain ⟨m, l, p, b, cr, sf⟩ := psp
      cases b <;> exact all rfl
    | stop | setLoraGatewayAddress | setLoraGatewayChannel | setLoraGatewayCRCCheck
    | setLoraGatewayIQSignalInversion => cases h; exact all rfl

/-- A command of a pipeline, or a "+++". -/
theorem Starts.wire {x : Stage} {d' : Driver} {jobs : List Job} {r : Started Act} (h : Starts d x (d', jobs, r))
    (hx : x.polls = false) (hc : ∀ command, x = .request command → command.toList.head? = some 'A')
    (hw : ∀ w ∈ d.wire, w.request.command.toList.head? ≠ some '#') :
    ∀ w ∈ d'.wire, w.request.command.toList.head? ≠ some '#' := by
  have new : ∀ {w' : Written}, w'.request.command.toList.head? ≠ some '#' →
      ∀ w ∈ d.wire ++ [w'], w.request.command.toList.head? ≠ some '#' := by
    intro w' hw' w hm
    rcases List.mem_append.mp hm with hm | hm
    · exact hw w hm
    · rw [List.mem_singleton.mp hm]
      exact hw'
  have plus : "+++".toList.head? ≠ some '#' := by decide
  cases h with
  | enterAtMode | exitAtMode => exact new plus
  | request command =>
    refine new ?_
    rw [hc command rfl]
    decide
  | poll => cases hx
  | _ => exact hw

theorem Starts.connections {x : Stage} {d' : Driver} {jobs : List Job} {r : Started Act} (h : Starts d x (d', jobs, r)) :
    d'.connections = d.connections := by
  cases h <;> rfl

theorem Starts.jobs {x : Stage} {d' : Driver} {jobs : List Job} {r : Started Act} (h : Starts d x (d', jobs, r)) :
    ∀ j ∈ jobs, j.polls = false := by
  intro j hj
  rcases h.pushes with ⟨-, rfl, -⟩ | ⟨c, -, -, rfl, -⟩
  · cases hj
  · rw [List.mem_singleton.mp hj]
    rfl

/-- The queue behind the head gets nothing to poll. -/
theorem moves_unpolled_queue {e : Option Ended} (hm : Moves (machine ae) s e t) (hu : ∀ j ∈ s.queue, j.polls = false) :
    ∀ j ∈ t.queue, j.polls = false := by
  have pushed : ∀ {x : Stage} {d' : Driver} {jobs : List Job} {r : Started Act}, startStage s.d x = (d', jobs, r) →
      ∀ j ∈ s.queue ++ jobs, j.polls = false := by
    intro x d' jobs r hs j hj
    exact (List.mem_append.mp hj).elim (hu j) ((startStage_starts hs).jobs j)
  cases hm with
  | skip _ hq _ => exact fun j hj => hu j (by rw [hq]; exact List.mem_cons_of_mem _ hj)
  | opened _ hq _ => exact fun j hj => hu j (by rw [hq]; exact List.mem_cons_of_mem _ hj)
  | finished => exact hu
  | waits _ _ _ hs => exact pushed hs
  | passed _ _ _ hs _ => exact pushed hs
  | nullFailed _ _ _ hs _ => exact pushed hs
  | actResult => exact hu
  | actFailed => exact hu

theorem moves_unpolled {e : Option Ended} (hm : Moves (machine ae) s e t) (hu : Unpolled s)
    (hs : ∀ c, s.cur = some c → Shaped s.d c) : Unpolled t := by
  have hdata := hm.data (P := fun d => d.connections = [] ∧ ∀ w ∈ d.wire, w.request.command.toList.head? ≠ some '#')
    ⟨hu.connections, hu.wire⟩
    (fun c x rest d jobs r hc _ hr hst => by
      have hx : x ∈ c.rest := by rw [hr]; exact List.mem_cons_self
      obtain ⟨o, hb⟩ := (hs c hc).bracketed
      refine ⟨(startStage_starts hst).connections.trans hu.connections,
        (startStage_starts hst).wire (hu.head c hc x hx) (fun command he => ?_) hu.wire⟩
      subst he
      simpa [Stage.inner, Stage.outer] using hb.mem (List.mem_append_right _ hx))
    (fun c a o _ _ => by
      rw [machine_ended, actEnded_frame Driver.connections (fun _ _ _ _ => rfl),
        actEnded_frame Driver.wire (fun _ _ _ _ => rfl)]
      exact ⟨hu.connections, hu.wire⟩)
    (fun c d o _ hd => by
      rw [machine_closed, closed_frame Driver.connections (fun _ _ _ => rfl),
        closed_frame Driver.wire (fun _ _ _ => rfl)]
      exact hd)
  refine ⟨hdata.1, moves_unpolled_queue hm hu.queue, ?_, hdata.2⟩
  refine hm.head (P := fun _ c => ∀ x ∈ c.rest, x.polls = false) (fun j queue k stages _ hq hp => ?_)
    (fun c x rest d jobs r act hc _ hr _ _ y hy => ?_) (fun c a hc _ _ => hu.head c hc)
  · exact pipeline_polls (hu.queue j (by rw [hq]; exact List.mem_cons_self)) hp
  · exact hu.head c hc y (by rw [hr]; exact List.mem_cons_of_mem _ hy)

/-- Nothing is pushed for a driver without connections. -/
theorem Unpolled.vain (hu : Unpolled s) {ev : Ev} (h : step ae s ev = some t) : PollsInVain s ev t := by
  intro hev
  rcases hev with rfl | ⟨handle, flags, rfl⟩
  · simp only [step, hu.connections, if_true] at h
    split at h
    · exact (Option.some.inj h).symm
    · cases h
  · simp only [step] at h
    split at h
    · cases h
      unfold pollEvent
      rw [hu.connections]
      cases ae.fromChars flags <;> rfl
    · cases h

theorem step_unpolled {ev : Ev} (h : step ae s ev = some t) (hu : Unpolled s)
    (hs : ∀ c, s.cur = some c → Shaped s.d c) : Unpolled t := by
  cases ev with
  | call c =>
    cases h
    refine ⟨?_, fun j hj => ?_, hu.head, ?_⟩
    · unfold call
      split <;> exact hu.connections
    · rcases List.mem_append.mp hj with hj | hj
      · exact hu.queue j hj
      · unfold call at hj
        split at hj
        · cases hj
        · rw [List.mem_singleton.mp hj]
          rfl
    · show ∀ w ∈ (call s.d c).1.wire, _
      rw [(call_frame s.d c).2.2.1]
      exact hu.wire
  | run => exact moves_unpolled (next_moves h) hu hs
  | answer a =>
    obtain ⟨r, -, h⟩ := Option.bind_eq_some_iff.mp h
    exact moves_unpolled (finishAct_moves h) hu hs
  | pollTask => rw [hu.vain h (Or.inl rfl)]; exact hu
  | xpoll handle flags => rw [hu.vain h (Or.inr ⟨handle, flags, rfl⟩)]; exact hu

theorem construct_unpolled (i : LoraGatewayInit) : Unpolled (construct i) where
  connections := rfl
  queue j hj := by rw [List.mem_singleton.mp hj]; rfl
  head c h := by cases h
  wire w hw := by cases hw

/-- In every run the connections stay empty, no poll and no read is queued, started or
    written, and the poll task and its listener change nothing. -/
theorem never_polls (ae : Aether) (i : LoraGatewayInit) (es : List Ev) :
    Always (step ae) Unpolled (construct i) es ∧ Along (step ae) PollsInVain (construct i) es := by
  have hinit : Unpolled (construct i) ∧ ∀ c, (construct i).cur = some c → Shaped (construct i).d c :=
    ⟨construct_unpolled i, fun c h => by cases h⟩
  constructor
  · refine always_of_invariant (I := fun s => Unpolled s ∧ ∀ c, s.cur = some c → Shaped s.d c) (fun s h => h.1) ?_ hinit
    exact fun s ev t hu h => ⟨step_unpolled h hu.1 hu.2, step_shaped h hu.2⟩
  · refine along_of_meets (I := fun s => Unpolled s ∧ ∀ c, s.cur = some c → Shaped s.d c) (C := fun _ _ => True) ?_
      (fun s ev t hu _ h => hu.1.vain h) hinit (meets_of_all fun _ _ _ => trivial)
    exact fun s ev t hu _ h => ⟨step_unpolled h hu.1 hu.2, step_shaped h hu.2⟩

/-! ## Rest -/

def Stage.weight : Stage → Nat
  | .operation _ => 20
  | _ => 2

def Job.weight : Job → Nat
  | .init => 116
  | .operation _ _ => 18
  | .poll => 4
  | .readPacket _ => 1

theorem requestOrNull_weight (command : Option String) : (requestOrNull command).weight = 2 := by
  cases command <;> rfl

theorem pipeline_weight {j : Job} {k : Handler} {l : List Stage} (h : pipeline d j = some (k, l)) :
    (l.map Stage.weight).sum + 2 ≤ j.weight := by
  cases j with
  | poll => cases h; exact Nat.le_refl 4
  | readPacket => cases h
  | init =>
    cases h
    simp only [init, setupSerialPort, setBaudRate, setParity, setStopBits, List.map_append, List.map_cons,
      requestOrNull_weight]
    exact Nat.le_refl 116
  | operation op c =>
    show _ ≤ 18
    cases c with
    | start =>
      simp only [pipeline, callPipeline, start, Option.some.injEq] at h
      split at h
      · cases h; exact Nat.le_add_left 4 14
      · cases h; exact Nat.le_add_left 8 10
    | openNetwork protocol host port => cases protocol <;> cases h <;> exact Nat.le_add_left 4 14
    | setPowerSaveParam psp =>
      cases h
      obtain ⟨m, l, p, b, cr, sf⟩ := psp
      cases b <;> exact Nat.le_refl 18
    | stop | setLoraGatewayAddress | setLoraGatewayChannel | setLoraGatewayCRCCheck
    | setLoraGatewayIQSignalInversion => cases h; exact Nat.le_add_left 8 10

theorem weights (ae : Aether) : Weights (machine ae) Job.weight Stage.weight where
  opens _ _ _ _ h := pipeline_weight h
  skips _ j _ := by cases j <;> exact Nat.zero_lt_succ _
  starts d k x d' jobs r h := by
    rcases (startStage_starts h).pushes with ⟨-, rfl, -⟩ | ⟨c, rfl, -, rfl, -⟩
    · cases x <;> simp [Stage.weight]
    · exact Nat.le_refl 20

/-- The driver takes a step, or the module answers as `reply` allows. -/
def own (reply : AtRequest → Answer → Bool) (h : Logged) : Ev → Bool
  | .run => true
  | .answer a => (outstanding h.s).any fun r => reply r a
  | _ => false

def Ev.call? : Ev → Option Call
  | .call c => some c
  | _ => none

def gain (ev : Ev) : Nat := 18 * ev.call?.toList.length

/-- Every operation handed out was told one end, but an `OpenNetwork` that was passed over. -/
def AllSettled (h : Logged) : Prop :=
  ∀ op c, h.calls[op]? = some c → Settled c (told h.s.d op) ∨ c.unopened = true ∧ told h.s.d op = []

structure Quietable (h : Logged) : Prop where
  sound : Sound h
  unpolled : Unpolled h.s
  shaped : ∀ c, h.s.cur = some c → Shaped h.s.d c

section
variable {reply : AtRequest → Answer → Bool} {h h' : Logged} {ev : Ev} {i : LoraGatewayInit} {es : List Ev}

theorem construct_quietable (i : LoraGatewayInit) : Quietable (.construct i) :=
  ⟨construct_sound i, construct_unpolled i, fun c h => by cases h⟩

theorem step_quietable (hq : Quietable h) (hs : h.step ae ev = some h') : Quietable h' := by
  obtain ⟨ht, -, -⟩ := Logged.step_some hs
  exact ⟨step_sound hs hq.sound, step_unpolled ht hq.unpolled hq.shaped, step_shaped ht hq.shaped⟩

theorem ranked (ae : Aether) (reply : AtRequest → Answer → Bool) :
    Ranked (Logged.step ae) (own reply) Quietable (fun h => load Job.weight Stage.weight h.s) := by
  refine ⟨fun _ _ _ hq _ hs => step_quietable hq hs, fun h ev h' _ ho hs => ?_⟩
  obtain ⟨ht, -, -⟩ := Logged.step_some hs
  cases ev with
  | run => exact (next_moves ht).lowers (weights ae)
  | answer a =>
    obtain ⟨r, -, ht⟩ := Option.bind_eq_some_iff.mp ht
    exact (finishAct_moves ht).lowers (weights ae)
  | call | pollTask | xpoll => cases ho

theorem step_gain (hq : Quietable h) (hs : h.step ae ev = some h') :
    load Job.weight Stage.weight h'.s ≤ load Job.weight Stage.weight h.s + gain ev := by
  obtain ⟨ht, -, -⟩ := Logged.step_some hs
  cases ev with
  | run => exact Nat.le_of_lt ((next_moves ht).lowers (weights ae))
  | answer a =>
    obtain ⟨r, -, ht⟩ := Option.bind_eq_some_iff.mp ht
    exact Nat.le_of_lt ((finishAct_moves ht).lowers (weights ae))
  | call c =>
    rw [← Option.some.inj ht]
    refine Nat.le_trans (Nat.le_of_eq (load_push h.s (call h.s.d c).2.1)) (Nat.add_le_add_left ?_ _)
    unfold call
    split
    · exact Nat.zero_le _
    · exact Nat.le_refl 18
  | pollTask => rw [hq.unpolled.vain ht (Or.inl rfl)]; exact Nat.le_refl _
  | xpoll handle flags => rw [hq.unpolled.vain ht (Or.inr ⟨handle, flags, rfl⟩)]; exact Nat.le_refl _

/-- The driver rests when it is idle or stalled. -/
theorem quiet_iff (hreply : ∀ r, ∃ a, reply r a = true) :
    Quiet (Logged.step ae) (own reply) h ↔ Idle h.s ∨ Stalled ae h.s := by
  have none_iff : ∀ ev, h.step ae ev = none ↔ Lora.step ae h.s ev = none := fun ev => Option.map_eq_none_iff
  constructor
  · intro hq
    have hnext : next (machine ae) h.s = none := (none_iff .run).mp (hq .run rfl)
    have hout : outstanding h.s = none := by
      cases hr : outstanding h.s with
      | none => rfl
      | some r =>
        obtain ⟨a, ha⟩ := hreply r
        have hn := (none_iff _).mp (hq (.answer a) (by simpa [own, hr] using ha))
        obtain ⟨c, hc, hact⟩ := outstanding_some hr
        simp [Lora.step, hr, finishAct, hc, hact] at hn
    by_cases hi : Idle h.s
    · exact Or.inl hi
    · exact Or.inr ⟨hi, hout, hnext⟩
  · intro hrest
    have hno : outstanding h.s = none ∧ next (machine ae) h.s = none := by
      rcases hrest with hi | ⟨-, hout, hnext⟩
      · exact ⟨by simp [outstanding, waiting, hi.1], next_eq_none.mpr (Or.inl hi)⟩
      · exact ⟨hout, hnext⟩
    intro ev ho
    rw [none_iff]
    cases ev with
    | run => exact hno.2
    | answer a => simp [Lora.step, hno.1]
    | call | pollTask | xpoll => cases ho

/-- When the queue is empty all its stages are finished. -/
theorem Sound.allSettled (hh : Sound h) (hi : Idle h.s) : AllSettled h := by
  intro op c hc
  have hf : Finished h.s op := by
    refine ⟨fun j hj => ?_, fun k hk => ?_⟩
    · rw [hi.2] at hj
      cases hj
    · rw [hi.1] at hk
      cases hk
  exact ((hh.phase op c hc).finished hf).imp_left And.right

theorem quietable (hx : exec (Logged.step ae) (.construct i) es = some h) : Quietable h :=
  invariant (fun _ _ _ => step_quietable) (construct_quietable i) hx

theorem load_bound (reply : AtRequest → Answer → Bool) (hx : exec (Logged.step ae) (.construct i) es = some h) :
    ownMoves (Logged.step ae) (own reply) (.construct i) es + load Job.weight Stage.weight h.s ≤
      116 + 18 * (es.filterMap Ev.call?).length := by
  have hcount := (ranked ae reply).count (fun _ _ _ => step_quietable) (fun _ _ _ hq _ hs => step_gain hq hs)
    (construct_quietable i) hx
  have hgain : (es.map gain).sum = 18 * (es.filterMap Ev.call?).length := sum_gain Ev.call? 18 es
  rw [hgain] at hcount
  exact hcount

/-- A run has at most 116 steps of the driver and its module and 18 more for each call. It
    rests when the driver is idle or stalled, and when it is idle every operation has been
    settled once, but for an `OpenNetwork` of another protocol, which never is. -/
theorem drains (hx : exec (Logged.step ae) (.construct i) es = some h) :
    ownMoves (Logged.step ae) (own fun _ _ => true) (.construct i) es ≤ 116 + 18 * (es.filterMap Ev.call?).length ∧
      (Quiet (Logged.step ae) (own fun _ _ => true) h ↔ Idle h.s ∨ Stalled ae h.s) ∧ (Idle h.s → AllSettled h) :=
  ⟨Nat.le_of_add_right_le (load_bound _ hx), quiet_iff fun _ => ⟨.expected, rfl⟩, (quietable hx).sound.allSettled⟩

/-- A silent module: `Init` and a `Stop` both time out. -/
theorem drains_silent :
    let es := [Ev.call .stop, .run, .run, .answer .timeout, .run, .run, .run, .answer .timeout]
    ∃ h, exec (Logged.step ⟨true, fun _ => none⟩) (.construct .default) es = some h ∧
      ownMoves (Logged.step ⟨true, fun _ => none⟩) (own fun _ _ => true) (.construct .default) es = 7 ∧
      Quiet (Logged.step ⟨true, fun _ => none⟩) (own fun _ _ => true) h ∧ AllSettled h := by
  intro es
  obtain ⟨-, hquiet, hsettled⟩ :=
    drains (rfl : exec (Logged.step ⟨true, fun _ => none⟩) (.construct .default) es = some _)
  exact ⟨_, rfl, rfl, hquiet.mpr (Or.inl ⟨rfl, rfl⟩), hsettled ⟨rfl, rfl⟩⟩

/-- However the module answers, so many steps bring the driver to rest. -/
theorem comes_to_rest (answer : AtRequest → Answer) (hx : exec (Logged.step ae) (.construct i) es = some h) :
    ∃ es' h', exec (Logged.step ae) h es' = some h' ∧
      Meets (Logged.step ae) (fun h ev => own (fun r a => decide (a = answer r)) h ev = true) h es' ∧
      es'.length ≤ 116 + 18 * (es.filterMap Ev.call?).length ∧ (Stalled ae h'.s ∨ Idle h'.s ∧ AllSettled h') := by
  obtain ⟨es', h', hx', hm, hlen, hq, hrest⟩ :=
    (ranked ae fun r a => decide (a = answer r)).settles (quietable hx)
  have hbound := load_bound (fun _ _ => true) hx
  refine ⟨es', h', hx', hm, by omega, ?_⟩
  rcases (quiet_iff fun r => ⟨answer r, decide_eq_true rfl⟩).mp hrest with hi | hs
  · exact Or.inr ⟨hi, hq.sound.allSettled hi⟩
  · exact Or.inl hs

/-- A `Stop` called before `Init` runs, with a module that answers every request. -/
theorem comes_to_rest_stop :
    ∃ es' h', exec (Logged.step ⟨true, fun _ => none⟩) (.construct .default) (.call .stop :: es') = some h' ∧
      es'.length ≤ 134 ∧ (Stalled ⟨true, fun _ => none⟩ h'.s ∨ Idle h'.s ∧ AllSettled h') := by
  obtain ⟨es', h', hx, -, hlen, hrest⟩ := comes_to_rest (fun _ => .expected)
    (rfl : exec (Logged.step ⟨true, fun _ => none⟩) (.construct .default) [.call .stop] = some _)
  exact ⟨es', h', hx, hlen, hrest⟩

end

end AetherGateway.Lora
