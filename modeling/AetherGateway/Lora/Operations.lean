/-
  AetherGateway.Lora.Operations — the operation objects of the driver, from the call that
  hands one out to what it is told (see `AetherGateway.Lora.Driver`).

  `Logged` is the driver with the history of its operations: the call behind each object,
  and the driver's `at_mode_` when the queue made its stage. An object goes through its
  phases once (`Phase`): its stage is queued, then its pipeline is the head of the queue,
  then it is done with.
  - `moves_told`, `moves_away`: a head that is not the object's tells it nothing.
  - `Phase.step`: what one step does to an object; `Phase.success`: where success comes from.
  - `step_sound`: in every run the history fits the driver and every object is in a phase.
-/

import AetherGateway.Lora.Stall

namespace AetherGateway.Lora

open AetherGateway.SerialQueue AetherGateway.Runs

variable {ae : Aether} {s t : St} {d : Driver} {op : Nat} {c : Call}

/-! ## What an object is told -/

def told (d : Driver) (op : Nat) : List Report := (d.reports.filter (·.1 == op)).map (·.2)

/-- The AT requests of the object's pipeline that have ended, in order. -/
def answersOf (d : Driver) (op : Nat) : List (AtRequest × Ended) :=
  (d.answers.filter (·.1 == .operation op)).map (·.2)

def endReport : Ended → Report
  | .result => .notify
  | .error => .failed
  | .stop => .stop

def Act.request? : Act → Option AtRequest
  | .request r => some r
  | _ => none

theorem told_report (d : Driver) (op' : Nat) (r : Report) (op : Nat) :
    told (report d op' r) op = told d op ++ if op' = op then [r] else [] := by
  unfold told report
  rw [List.filter_append, List.map_append]
  by_cases h : op' = op
  · simp [h]
  · simp [h]

theorem told_closed (d : Driver) (k : Handler) (o : Ended) (op : Nat) :
    told (closed d k o) op = told d op ++ if k.op? = some op then [endReport o] else [] := by
  cases k with
  | operation op' =>
    simp only [Handler.op?, Option.some.injEq]
    cases o with
    | result => exact told_report _ op' .notify op
    | error => exact told_report _ op' .failed op
    | stop => exact told_report _ op' .stop op
  | init => exact (List.append_nil _).symm
  | nobody => exact (List.append_nil _).symm

theorem told_actEnded {k : Handler} {a : Act} {o : Ended} (ha : a.op? ≠ some op) :
    told (actEnded d k a o) op = told d op := by
  cases a with
  | request r => rfl
  | operation op' => rfl
  | openNetwork op' a =>
    have hne : op' ≠ op := fun h => ha (by rw [h]; rfl)
    cases o with
    | result => exact (told_report d op' _ op).trans (by rw [if_neg hne, List.append_nil])
    | error => exact (told_report d op' _ op).trans (by rw [if_neg hne, List.append_nil])
    | stop => rfl

theorem answersOf_closed (d : Driver) (k : Handler) (o : Ended) (op : Nat) :
    answersOf (closed d k o) op = answersOf d op :=
  closed_frame (answersOf · op) (fun _ _ _ => rfl) d k o

theorem answersOf_actEnded (d : Driver) (k : Handler) (a : Act) (o : Ended) (op : Nat) :
    answersOf (actEnded d k a o) op =
      answersOf d op ++ if k.op? = some op then a.request?.toList.map (·, o) else [] := by
  cases a with
  | request r =>
    have hk : (k == .operation op) = decide (k.op? = some op) := by
      cases k with
      | operation op' => by_cases h : op' = op <;> simp [Handler.op?, h]
      | init => rfl
      | nobody => rfl
    show ((d.answers ++ [(k, r, o)]).filter (·.1 == .operation op)).map (·.2) = _
    rw [List.filter_append, List.map_append]
    by_cases h : k.op? = some op
    · simp [answersOf, hk, h, Act.request?]
    · simp [answersOf, hk, h]
  | operation op' => simp [actEnded, Act.request?]
  | openNetwork op' a => cases o <;> simp [actEnded, answersOf, report, Act.request?]

section
variable {x : Stage} {d' : Driver} {jobs : List Job} {r : Started Act}

theorem Starts.told (h : Starts d x (d', jobs, r)) (hx : x.op? ≠ some op) : told d' op = Lora.told d op := by
  cases h with
  | notify op' =>
    have hne : op' ≠ op := fun h => hx (by rw [h]; rfl)
    exact (told_report d op' .notify op).trans (by rw [if_neg hne, List.append_nil])
  | _ => rfl

theorem Starts.answers (h : Starts d x (d', jobs, r)) : d'.answers = d.answers := by
  cases h <;> rfl

/-- A stage queues nothing, or the stage of the object it hands out. -/
theorem Starts.pushes (h : Starts d x (d', jobs, r)) :
    (∀ c, x = .operation c → c.refused = true) ∧ jobs = [] ∧ d'.operations = d.operations ∨
      ∃ c, x = .operation c ∧ c.refused = false ∧ jobs = [.operation d.operations c] ∧
        d'.operations = d.operations + 1 := by
  cases h with
  | operation hc => exact Or.inr ⟨_, rfl, hc, rfl, rfl⟩
  | refused hc => exact Or.inl ⟨fun c h => by cases h; exact hc, rfl, rfl⟩
  | _ => exact Or.inl ⟨fun c h => (by cases h), rfl, rfl⟩

end

/-! ## Whom the head is for -/

def Names (k : Cur Handler Stage Act) (op : Nat) : Prop :=
  k.handler.op? = some op ∨ (∃ x ∈ k.ran ++ k.rest, x.op? = some op) ∨ ∃ a, k.act = some a ∧ a.op? = some op

def Away (s : St) (op : Nat) : Prop := ∀ k, s.cur = some k → ¬ Names k op

def Unqueued (s : St) (op : Nat) : Prop := ∀ j ∈ s.queue, j.op? ≠ some op

/-- A pipeline is the object's of its job. -/
theorem pipeline_names {j : Job} {k : Handler} {l : List Stage} (h : pipeline d j = some (k, l))
    (hn : Names ⟨k, [], l, none⟩ op) : j.op? = some op := by
  obtain ⟨hb, hk⟩ := pipeline_bracketed h
  rcases hn with hn | ⟨x, hx, hn⟩ | ⟨a, ha, -⟩
  · exact hk op hn
  · exact hb.op? hx hn
  · cases ha

/-- A head that is not the object's tells it nothing and records no answer for it. -/
theorem moves_told {e : Option Ended} (h : Moves (machine ae) s e t) (ha : Away s op) :
    told t.d op = told s.d op ∧ answersOf t.d op = answersOf s.d op := by
  refine h.data (P := fun d => told d op = told s.d op ∧ answersOf d op = answersOf s.d op) ⟨rfl, rfl⟩
    (fun k x rest d jobs r hc _ hr hs => ?_) (fun k a o hc hact => ?_) (fun k d o hc ⟨ht, hn⟩ => ?_)
  · have hx : x.op? ≠ some op := fun h => ha k hc (Or.inr (Or.inl ⟨x, by simp [hr], h⟩))
    have hst := startStage_starts hs
    exact ⟨hst.told hx, by unfold answersOf; rw [hst.answers]⟩
  · have hop : a.op? ≠ some op := fun h => ha k hc (Or.inr (Or.inr ⟨a, hact, h⟩))
    have hk : k.handler.op? ≠ some op := fun h => ha k hc (Or.inl h)
    rw [machine_ended, told_actEnded hop, answersOf_actEnded, if_neg hk, List.append_nil]
    exact ⟨rfl, rfl⟩
  · have hk : k.handler.op? ≠ some op := fun h => ha k hc (Or.inl h)
    rw [machine_closed, told_closed, if_neg hk, List.append_nil, answersOf_closed]
    exact ⟨ht, hn⟩

theorem moves_away {e : Option Ended} (h : Moves (machine ae) s e t) (ha : Away s op)
    (hj : ∀ j rest, s.cur = none → s.queue = j :: rest → j.op? ≠ some op) : Away t op := by
  refine h.head (P := fun _ k => ¬ Names k op) (fun j queue k stages hc hq hp hn => ?_)
    (fun k x rest d jobs r act hc _ hr hs hact hn => ha k hc ?_) (fun k a hc _ _ hn => ha k hc ?_)
  · exact hj j queue hc hq (pipeline_names hp hn)
  · rcases hn with hn | ⟨y, hy, hn⟩ | ⟨a, ha, hn⟩
    · exact Or.inl hn
    · exact Or.inr (Or.inl ⟨y, by simpa [hr] using hy, hn⟩)
    · cases hact a ha
      exact Or.inr (Or.inl ⟨x, by simp [hr], (startStage_starts hs).act hn⟩)
  · rcases hn with hn | hn | ⟨b, hb, -⟩
    · exact Or.inl hn
    · exact Or.inr (Or.inl hn)
    · cases hb

/-! ## The history of the operations -/

structure Logged where
  s : St
  /-- The call behind each object. -/
  calls : List Call
  /-- The objects whose stage was made, with `at_mode_` then. -/
  began : List (Nat × Bool)

/-- The call whose object the event hands out: a caller's, or one of a stage of `Init`. -/
def handsOut (s : St) : Ev → Option Call
  | .call c => if c.refused then none else some c
  | .run =>
    match nextStage s with
    | some (.operation c) => if c.refused then none else some c
    | _ => none
  | _ => none

def begins (s : St) : Ev → Option Nat
  | .run =>
    match s.cur, s.queue with
    | none, .operation op _ :: _ => some op
    | _, _ => none
  | _ => none

def Logged.construct (i : LoraGatewayInit) : Logged := ⟨Lora.construct i, [], []⟩

def Logged.step (ae : Aether) (h : Logged) (ev : Ev) : Option Logged :=
  (Lora.step ae h.s ev).map fun t =>
    ⟨t, h.calls ++ (handsOut h.s ev).toList, h.began ++ (begins h.s ev).toList.map (·, h.s.d.atMode)⟩

/-- A step of the driver that leaves the head alone. -/
structure Beside (s t : St) : Prop where
  cur : t.cur = s.cur
  d : t.d = { s.d with operations := t.d.operations }
  queue : ∃ jobs, t.queue = s.queue ++ jobs ∧ ∀ j ∈ jobs, ∀ op, j.op? = some op → s.d.operations ≤ op

/-- Every step is one of the queue or leaves the head alone. -/
theorem step_split {ev : Ev} (h : step ae s ev = some t) :
    (∃ e, Moves (machine ae) s e t ∧ (e = none → ev = .run) ∧
      ∀ o, e = some o → o ≠ .stop ∧ ∃ r, outstanding s = some r) ∨ Beside s t := by
  cases step_cases h with
  | call c =>
    refine Or.inr ⟨rfl, ?_, (call s.d c).2.1, rfl, fun j hj op hop => ?_⟩
    · unfold call
      split <;> rfl
    · unfold call at hj
      split at hj
      · cases hj
      · rw [List.mem_singleton.mp hj] at hop
        cases hop
        exact Nat.le_refl _
  | run h => exact Or.inl ⟨none, h, fun _ => rfl, fun o ho => by cases ho⟩
  | @answer t r a hr h =>
    refine Or.inl ⟨some a.ended, h, fun hn => (by cases hn), fun o ho => ⟨fun hs => ?_, r, hr⟩⟩
    cases ho
    cases a <;> cases hs
  | @pushed ev jobs hp => exact Or.inr ⟨rfl, rfl, jobs, rfl, fun j hj op hop => by rw [hp j hj] at hop; cases hop⟩

/-- What a step does to the queue and to the objects handed out. -/
inductive Queues (s : St) (ev : Ev) (t : St) : Prop where
  | took {j : Job} (hev : ev = .run) (hc : s.cur = none) (hq : s.queue = j :: t.queue) (hh : handsOut s ev = none)
      (ho : t.d.operations = s.d.operations)
  | added {jobs : List Job} (hq : t.queue = s.queue ++ jobs) (hj : ∀ j ∈ jobs, j.op? = none) (hh : handsOut s ev = none)
      (ho : t.d.operations = s.d.operations)
  | handed {c : Call} (hq : t.queue = s.queue ++ [.operation s.d.operations c]) (hh : handsOut s ev = some c)
      (ho : t.d.operations = s.d.operations + 1)

theorem Queues.same {ev : Ev} (hq : t.queue = s.queue) (hh : handsOut s ev = none)
    (ho : t.d.operations = s.d.operations) : Queues s ev t :=
  .added (hq.trans (List.append_nil _).symm) (fun _ hj => absurd hj List.not_mem_nil) hh ho

/-- A stage of the head starts. -/
theorem Queues.started {k : Cur Handler Stage Act} {x : Stage} {rest : List Stage} {d' : Driver} {jobs : List Job}
    {r : Started Act} (hc : s.cur = some k) (ha : k.act = none) (hr : k.rest = x :: rest)
    (hs : startStage s.d x = (d', jobs, r)) (hq : t.queue = s.queue ++ jobs) (ho : t.d.operations = d'.operations) :
    Queues s .run t := by
  have hn := nextStage_some hc ha hr
  rcases (startStage_starts hs).pushes with ⟨hx, rfl, hops⟩ | ⟨c, rfl, hc, rfl, hops⟩
  · refine .same (hq.trans (List.append_nil _)) ?_ (ho.trans hops)
    unfold handsOut
    rw [hn]
    cases x with
    | operation c => simp [hx c rfl]
    | _ => rfl
  · refine .handed hq ?_ (ho.trans hops)
    unfold handsOut
    rw [hn]
    simp [hc]

theorem moves_queues {e : Option Ended} {ev : Ev} (hm : Moves (machine ae) s e t) (hrun : e = none → ev = .run)
    (hans : e ≠ none → handsOut s ev = none) : Queues s ev t := by
  -- with no stage to start nothing is handed out
  have hand : nextStage s = none → handsOut s ev = none := by
    intro hn
    cases e with
    | none => rw [hrun rfl]; unfold handsOut; rw [hn]
    | some o => exact hans (by simp)
  have hclosed : ∀ d k o, (closed d k o).operations = d.operations := closed_frame Driver.operations fun _ _ _ => rfl
  have hended : ∀ d k a o, (actEnded d k a o).operations = d.operations :=
    actEnded_frame Driver.operations fun _ _ _ _ => rfl
  cases hm with
  | skip hc hq hp => exact .took (hrun rfl) hc hq (hand (by rw [nextStage, hc])) rfl
  | opened hc hq hp => exact .took (hrun rfl) hc hq (hand (by rw [nextStage, hc])) rfl
  | finished hc ha hr => exact .same rfl (hand (by simp [nextStage, hc, ha, hr])) (hclosed _ _ _)
  | waits hc ha hr hs => rw [hrun rfl]; exact .started hc ha hr hs rfl rfl
  | passed hc ha hr hs hnull => rw [hrun rfl]; exact .started hc ha hr hs rfl rfl
  | nullFailed hc ha hr hs hnull => rw [hrun rfl]; exact .started hc ha hr hs rfl (hclosed _ _ _)
  | actResult hc ha he => exact .same rfl (hand (by simp [nextStage, hc, ha])) (hended _ _ _ _)
  | actFailed hc ha he ho =>
    exact .same rfl (hand (by simp [nextStage, hc, ha])) ((hclosed _ _ _).trans (hended _ _ _ _))

theorem step_queues {ev : Ev} (h : step ae s ev = some t) : Queues s ev t := by
  cases ev with
  | call c =>
    cases h
    unfold call
    by_cases hc : c.refused = true
    · exact .same (by simp [hc, push]) (by simp [handsOut, hc]) (by simp [hc])
    · exact .handed (c := c) (by simp [hc, push]) (by simp [handsOut, hc]) (by simp [hc])
  | run => exact moves_queues (next_moves h) (fun _ => rfl) (fun h => absurd rfl h)
  | answer a =>
    obtain ⟨r, hr, h⟩ := Option.bind_eq_some_iff.mp h
    exact moves_queues (finishAct_moves h) (fun h => by cases h) (fun _ => rfl)
  | pollTask =>
    cases step_cases h with
    | pushed hp => exact .added rfl hp rfl rfl
  | xpoll handle flags =>
    cases step_cases h with
    | pushed hp => exact .added rfl hp rfl rfl

/-! ## The phases of an object -/

/-- The object was told one end of its call, and nothing else. -/
def Settled : Call → List Report → Prop
  | .openNetwork _ _ _, rs => (∃ i, rs = [.setValue i]) ∨ rs = [.reject]
  | _, rs => rs = [.notify] ∨ rs = [.failed] ∨ rs = [.stop]

def Report.success : Report → Bool
  | .notify => true
  | .setValue _ => true
  | _ => false

/-- The call opens a network of a protocol the driver has no action for. -/
def Call.unopened : Call → Bool
  | .openNetwork .other _ _ => true
  | _ => false

def Call.network : Call → Bool
  | .openNetwork _ _ _ => true
  | _ => false

/-- The queue has finished the stage of the object, or never had it. -/
def Finished (s : St) (op : Nat) : Prop := Unqueued s op ∧ Away s op

inductive Phase (s : St) (op : Nat) (c : Call) : Prop where
  | queued {pre post : List Job} (hq : s.queue = pre ++ .operation op c :: post) (hpre : ∀ j ∈ pre, j.op? ≠ some op)
      (hpost : ∀ j ∈ post, j.op? ≠ some op) (ha : Away s op) (ht : told s.d op = []) (hn : answersOf s.d op = [])
  /-- The head is the pipeline of the object, which it tells its end. -/
  | running {k : Cur Handler Stage Act} (hc : s.cur = some k) (hk : k.handler = .operation op)
      (hl : ∃ d, callPipeline d op c = some (.operation op, k.ran ++ k.rest)) (ha : ∀ a, k.act = some a → a.op? = none)
      (hq : Unqueued s op) (ht : told s.d op = [])
  /-- `Start` found the driver started. -/
  | notifies (hcall : c = .start) (hc : s.cur = some ⟨.nobody, [], [.notify op], none⟩) (hq : Unqueued s op)
      (ht : told s.d op = [])
  | notified (hcall : c = .start) (hc : s.cur = some ⟨.nobody, [.notify op], [], none⟩) (hq : Unqueued s op)
      (ht : told s.d op = [.notify])
  | opens {x : Stage} (hcall : c.network = true) (hx : (∃ h p, x = .openTcp op h p) ∨ ∃ h p, x = .openUdp op h p)
      (hc : s.cur = some ⟨.nobody, [], [x], none⟩) (hq : Unqueued s op) (ht : told s.d op = [])
  /-- The open network action never ends. -/
  | opening {x : Stage} {host : String} {port : UInt16} (hcall : c.network = true) (hx : x.op? = some op)
      (hc : s.cur = some ⟨.nobody, [x], [], some (.openNetwork op (.make host port))⟩) (hq : Unqueued s op)
      (ht : told s.d op = [])
  | done (hf : Finished s op)
      (ht : c.network = false ∧ Settled c (told s.d op) ∨ c.unopened = true ∧ told s.d op = [])

/-- Every outcome of making a stage of an operation. -/
theorem callPipeline_cases {k : Handler} {l : List Stage} (h : callPipeline d op c = some (k, l)) :
    (k = .operation op ∧ (∀ x ∈ l, x.op? = none) ∧ c.network = false ∧ ∀ o, Settled c [endReport o]) ∨
    (c = .start ∧ d.started = true ∧ k = .nobody ∧ l = [.notify op]) ∨
    (c.network = true ∧ c.unopened = false ∧ k = .nobody ∧
      ∃ x, l = [x] ∧ ((∃ h p, x = .openTcp op h p) ∨ ∃ h p, x = .openUdp op h p)) := by
  have ends : ∀ o : Ended,
      [endReport o] = [Report.notify] ∨ [endReport o] = [Report.failed] ∨ [endReport o] = [Report.stop] := by
    intro o
    cases o <;> simp [endReport]
  have hn : ∀ {l : List Stage}, l.all (fun x => x.op?.isNone) = true → ∀ x ∈ l, x.op? = none := by
    intro l hl x hx
    exact Option.isNone_iff_eq_none.mp (List.all_eq_true.mp hl x hx)
  cases c with
  | start =>
    simp only [callPipeline, start, Option.some.injEq] at h
    split at h
    · next hst => cases h; exact Or.inr (Or.inl ⟨rfl, hst, rfl, rfl⟩)
    · cases h; exact Or.inl ⟨rfl, hn rfl, rfl, ends⟩
  | openNetwork protocol host port =>
    cases protocol with
    | tcp => cases h; exact Or.inr (Or.inr ⟨rfl, rfl, rfl, _, rfl, Or.inl ⟨host, port, rfl⟩⟩)
    | udp => cases h; exact Or.inr (Or.inr ⟨rfl, rfl, rfl, _, rfl, Or.inr ⟨host, port, rfl⟩⟩)
    | other => cases h
  | setPowerSaveParam psp =>
    cases h
    refine Or.inl ⟨rfl, hn ?_, rfl, ends⟩
    obtain ⟨m, l, p, b, cr, sf⟩ := psp
    cases b <;> rfl
  | stop => cases h; exact Or.inl ⟨rfl, hn rfl, rfl, ends⟩
  | setLoraGatewayAddress address => cases h; exact Or.inl ⟨rfl, hn rfl, rfl, ends⟩
  | setLoraGatewayChannel channel => cases h; exact Or.inl ⟨rfl, hn rfl, rfl, ends⟩
  | setLoraGatewayCRCCheck crcCheck => cases h; exact Or.inl ⟨rfl, hn rfl, rfl, ends⟩
  | setLoraGatewayIQSignalInversion signalInversion => cases h; exact Or.inl ⟨rfl, hn rfl, rfl, ends⟩

theorem callPipeline_none (h : callPipeline d op c = none) : c.unopened = true := by
  cases c with
  | openNetwork protocol host port => cases protocol <;> first | rfl | cases h
  | _ => cases h

theorem Unqueued.step {ev : Ev} (h : Unqueued s op) (hop : op < s.d.operations) (hq : Queues s ev t) :
    Unqueued t op := by
  intro j hj
  cases hq with
  | took _ _ hq _ _ => exact h j (by rw [hq]; exact List.mem_cons_of_mem _ hj)
  | added hq hjobs _ _ =>
    rw [hq] at hj
    rcases List.mem_append.mp hj with hj | hj
    · exact h j hj
    · rw [hjobs j hj]
      exact fun h => by cases h
  | handed hq _ _ =>
    rw [hq] at hj
    rcases List.mem_append.mp hj with hj | hj
    · exact h j hj
    · rw [List.mem_singleton.mp hj]
      intro he
      cases he
      exact Nat.lt_irrefl _ hop

theorem Phase.beside (h : Phase s op c) (hop : op < s.d.operations) (hb : Beside s t) : Phase t op c := by
  have htold : told t.d op = told s.d op := by rw [hb.d]; rfl
  have hans : answersOf t.d op = answersOf s.d op := by rw [hb.d]; rfl
  obtain ⟨jobs, hqueue, hjobs⟩ := hb.queue
  have hnew : ∀ j ∈ jobs, j.op? ≠ some op := by
    intro j hj he
    have := hjobs j hj op he
    omega
  have hunq : Unqueued s op → Unqueued t op := by
    intro h j hj
    rw [hqueue] at hj
    exact (List.mem_append.mp hj).elim (h j) (hnew j)
  cases h with
  | @queued pre post hq hpre hpost ha ht hn =>
    have hqt : t.queue = pre ++ .operation op c :: (post ++ jobs) := by
      rw [hqueue, hq, List.append_assoc, List.cons_append]
    refine .queued hqt hpre (fun j hj => ?_) ?_ (htold.trans ht) (hans.trans hn)
    · exact (List.mem_append.mp hj).elim (hpost j) (hnew j)
    · intro k hk
      exact ha k (by rw [← hb.cur]; exact hk)
  | running hc hk hl ha hq ht => exact .running (hb.cur.trans hc) hk hl ha (hunq hq) (htold.trans ht)
  | notifies hcall hc hq ht => exact .notifies hcall (hb.cur.trans hc) (hunq hq) (htold.trans ht)
  | notified hcall hc hq ht => exact .notified hcall (hb.cur.trans hc) (hunq hq) (htold.trans ht)
  | opens hcall hx hc hq ht => exact .opens hcall hx (hb.cur.trans hc) (hunq hq) (htold.trans ht)
  | opening hcall hx hc hq ht => exact .opening hcall hx (hb.cur.trans hc) (hunq hq) (htold.trans ht)
  | done hf ht =>
    refine .done ⟨hunq hf.1, fun k hk => hf.2 k (by rw [← hb.cur]; exact hk)⟩ ?_
    rw [htold]
    exact ht

/-- The stage of an object at the front of the queue is the only one of the object. -/
theorem Phase.front {c' : Call} {post : List Job} (h : Phase s op c) (hc : s.cur = none)
    (hq : s.queue = .operation op c' :: post) :
    (∀ j ∈ post, j.op? ≠ some op) ∧ told s.d op = [] ∧ answersOf s.d op = [] := by
  have hmem : Unqueued s op → False := fun h => h (.operation op c') (by rw [hq]; exact List.mem_cons_self) rfl
  cases h with
  | @queued pre post' hq' hpre hpost _ ht hn =>
    refine ⟨?_, ht, hn⟩
    rw [hq'] at hq
    cases pre with
    | nil => cases hq; exact hpost
    | cons p pre =>
      rw [List.cons_append, List.cons.injEq] at hq
      exact absurd (by rw [hq.1]; rfl) (hpre p List.mem_cons_self)
  | running hc' _ _ _ _ _ => cases hc.symm.trans hc'
  | notifies _ hc' _ _ => cases hc.symm.trans hc'
  | notified _ hc' _ _ => cases hc.symm.trans hc'
  | opens _ _ hc' _ _ => cases hc.symm.trans hc'
  | opening _ _ hc' _ _ => cases hc.symm.trans hc'
  | done hf _ => exact (hmem hf.1).elim

/-- The pipeline that a job makes is its object's. -/
theorem callPipeline_names {k : Handler} {l : List Stage} (h : callPipeline d op c = some (k, l)) :
    Names ⟨k, [], l, none⟩ op := by
  rcases callPipeline_cases h with ⟨rfl, -, -⟩ | ⟨-, -, -, rfl⟩ | ⟨-, -, -, x, rfl, hx⟩
  · exact Or.inl rfl
  · exact Or.inr (Or.inl ⟨.notify op, by simp, rfl⟩)
  · refine Or.inr (Or.inl ⟨x, by simp, ?_⟩)
    rcases hx with ⟨host, port, rfl⟩ | ⟨host, port, rfl⟩ <;> rfl

/-- A step finishes a stage on the queue only when it makes no pipeline. -/
theorem step_finishes {ev : Ev} (h : step ae s ev = some t) (hm : .operation op c ∈ s.queue) (hf : Finished t op) :
    callPipeline s.d op c = none := by
  have gone : .operation op c ∉ t.queue := fun hm => hf.1 _ hm rfl
  rcases step_split h with ⟨e, hmoves, -, -⟩ | hb
  · cases hmoves with
    | @skip j queue hc hq hp =>
      rw [hq] at hm
      rcases List.mem_cons.mp hm with rfl | hm
      · exact hp
      · exact absurd hm gone
    | @opened j queue k stages hc hq hp =>
      rw [hq] at hm
      rcases List.mem_cons.mp hm with rfl | hm
      · exact absurd (callPipeline_names hp) (hf.2 _ rfl)
      · exact absurd hm gone
    | finished _ _ _ => exact absurd hm gone
    | waits _ _ _ _ => exact absurd (List.mem_append_left _ hm) gone
    | passed _ _ _ _ _ => exact absurd (List.mem_append_left _ hm) gone
    | nullFailed _ _ _ _ _ => exact absurd (List.mem_append_left _ hm) gone
    | actResult _ _ _ => exact absurd hm gone
    | actFailed _ _ _ _ => exact absurd hm gone
  · obtain ⟨jobs, hq, -⟩ := hb.queue
    rw [hq] at gone
    exact absurd (List.mem_append_left _ hm) gone

/-- The queue comes to the object's stage. -/
theorem Phase.turn {post : List Job} {e : Option Ended} (hm : Moves (machine ae) s e t) (hc : s.cur = none)
    (hq : s.queue = .operation op c :: post) (hpost : ∀ j ∈ post, j.op? ≠ some op) (ht : told s.d op = []) :
    Phase t op c := by
  obtain ⟨j, queue, hq', rfl⟩ := hm.opens hc
  cases hq.symm.trans hq'
  unfold openJob
  cases hp : (machine ae).pipeline s.d (.operation op c) with
  | none => exact .done ⟨hpost, fun k hk => by cases hc.symm.trans hk⟩ (Or.inr ⟨callPipeline_none hp, ht⟩)
  | some p =>
    obtain ⟨k, stages⟩ := p
    rcases callPipeline_cases hp with ⟨rfl, -, -⟩ | ⟨rfl, -, rfl, rfl⟩ | ⟨hcall, -, rfl, x, rfl, hx⟩
    · exact .running rfl rfl ⟨s.d, hp⟩ (fun a ha => by cases ha) hpost ht
    · exact .notifies rfl rfl hpost ht
    · exact .opens hcall hx rfl hpost ht

/-- A step of the object's pipeline: the object is told its end, success only when all of
    its stages are over. -/
theorem Phase.runs {k : Cur Handler Stage Act} {e : Option Ended} (hm : Moves (machine ae) s e t) (hc : s.cur = some k)
    (hk : k.handler = .operation op) (hl : ∃ d, callPipeline d op c = some (.operation op, k.ran ++ k.rest))
    (ha : ∀ a, k.act = some a → a.op? = none) (hq : Unqueued t op) (ht : told s.d op = []) :
    Phase t op c ∧ ∀ r ∈ told t.d op, r.success = true → k.act = none ∧ k.rest = [] := by
  obtain ⟨d₀, hl₀⟩ := hl
  obtain ⟨-, hstage, hnet, hsettled⟩ : Handler.operation op = .operation op ∧ (∀ x ∈ k.ran ++ k.rest, x.op? = none) ∧
      c.network = false ∧ ∀ o, Settled c [endReport o] := by
    rcases callPipeline_cases hl₀ with h | ⟨-, -, h, -⟩ | ⟨-, -, h, -⟩
    · exact h
    · cases h
    · cases h
  have hkop : k.handler.op? = some op := by rw [hk]; rfl
  -- the end of the pipeline is what the object is told
  have ended : ∀ {d : Driver} (o : Ended), told d op = [] → t.d = closed d k.handler o → t.cur = none →
      (o = .result → k.act = none ∧ k.rest = []) →
      Phase t op c ∧ ∀ r ∈ told t.d op, r.success = true → k.act = none ∧ k.rest = [] := by
    intro d o hd htd htc ho
    have htold : told t.d op = [endReport o] := by rw [htd, told_closed, hd, if_pos hkop]; rfl
    refine ⟨.done ⟨hq, fun k' hk' => by rw [htc] at hk'; cases hk'⟩ (Or.inl ?_), fun r hr hs => ?_⟩
    · rw [htold]; exact ⟨hnet, hsettled o⟩
    · rw [htold, List.mem_singleton] at hr
      subst hr
      cases o with
      | result => exact ho rfl
      | error => cases hs
      | stop => cases hs
  -- the pipeline goes on, and nothing is told
  have going : Phase t op c → told t.d op = [] →
      Phase t op c ∧ ∀ r ∈ told t.d op, r.success = true → k.act = none ∧ k.rest = [] :=
    fun hp hn => ⟨hp, fun r hr => by rw [hn] at hr; cases hr⟩
  have started : ∀ {x : Stage} {rest : List Stage} {d' : Driver} {jobs : List Job} {r : Started Act},
      k.rest = x :: rest → startStage s.d x = (d', jobs, r) → told d' op = [] := by
    intro x rest d' jobs r hr hs
    have hx := hstage x (by simp [hr])
    exact ((startStage_starts hs).told (by rw [hx]; simp)).trans ht
  have next : ∀ {x : Stage} {rest : List Stage}, k.rest = x :: rest →
      callPipeline d₀ op c = some (.operation op, k.ran ++ [x] ++ rest) := by
    intro x rest hr
    rw [List.append_assoc, List.singleton_append, ← hr]
    exact hl₀
  cases hm with
  | skip hc' _ _ => cases hc.symm.trans hc'
  | opened hc' _ _ => cases hc.symm.trans hc'
  | finished hc' hact hr => cases hc.symm.trans hc'; exact ended .result ht rfl rfl fun _ => ⟨hact, hr⟩
  | @waits k' x rest d' jobs a hc' hact hr hs =>
    cases hc.symm.trans hc'
    refine going (.running rfl hk ⟨d₀, next hr⟩ (fun b hb => ?_) hq (started hr hs)) (started hr hs)
    cases hb
    have hx := hstage x (by simp [hr])
    cases hbo : a.op? with
    | none => rfl
    | some op' =>
      rw [(startStage_starts hs).act hbo] at hx
      cases hx
  | passed hc' hact hr hs hnull =>
    cases hc.symm.trans hc'
    exact going (.running rfl hk ⟨d₀, next hr⟩ (fun b hb => by cases hb) hq (started hr hs)) (started hr hs)
  | nullFailed hc' hact hr hs hnull =>
    cases hc.symm.trans hc'
    exact ended .error (started hr hs) rfl rfl fun h => by cases h
  | @actResult k' a e hc' hact he =>
    cases hc.symm.trans hc'
    have hta : told (actEnded s.d k.handler a .result) op = [] := (told_actEnded (by rw [ha a hact]; simp)).trans ht
    exact going (.running rfl hk ⟨d₀, hl₀⟩ (fun b hb => by cases hb) hq hta) hta
  | @actFailed k' a e o hc' hact he ho =>
    cases hc.symm.trans hc'
    exact ended o ((told_actEnded (by rw [ha a hact]; simp)).trans ht) rfl rfl fun h => absurd h ho

theorem Phase.moves {e : Option Ended} {ev : Ev} (h : Phase s op c) (hop : op < s.d.operations)
    (hm : Moves (machine ae) s e t) (hout : ∀ o, e = some o → ∃ r, outstanding s = some r) (hqs : Queues s ev t) :
    Phase t op c := by
  cases h with
  | @queued pre post hq hpre hpost ha ht hn =>
    by_cases hturn : s.cur = none ∧ pre = []
    · obtain ⟨hc, rfl⟩ := hturn
      exact .turn hm hc hq hpost ht
    · -- another job's turn, or a step of another job's pipeline
      obtain ⟨htt, hnt⟩ := moves_told hm ha
      have hat : Away t op := by
        refine moves_away hm ha fun j rest hc hj => ?_
        rw [hq] at hj
        cases pre with
        | nil => exact absurd ⟨hc, rfl⟩ hturn
        | cons p pre =>
          cases hj
          exact hpre _ List.mem_cons_self
      cases hqs with
      | took _ hc hj _ _ =>
        rw [hq] at hj
        cases pre with
        | nil => exact absurd ⟨hc, rfl⟩ hturn
        | cons p pre =>
          rw [List.cons_append, List.cons.injEq] at hj
          exact .queued hj.2.symm (fun j hj => hpre j (List.mem_cons_of_mem _ hj)) hpost hat (htt.trans ht) (hnt.trans hn)
      | @added jobs hj hnew _ _ =>
        have hqt : t.queue = pre ++ .operation op c :: (post ++ jobs) := by
          rw [hj, hq, List.append_assoc, List.cons_append]
        refine .queued hqt hpre (fun j hj => ?_) hat (htt.trans ht) (hnt.trans hn)
        rcases List.mem_append.mp hj with hj | hj
        · exact hpost j hj
        · rw [hnew j hj]
          exact fun h => by cases h
      | @handed c' hj _ _ =>
        have hqt : t.queue = pre ++ .operation op c :: (post ++ [.operation s.d.operations c']) := by
          rw [hj, hq, List.append_assoc, List.cons_append]
        refine .queued hqt hpre (fun j hj => ?_) hat (htt.trans ht) (hnt.trans hn)
        rcases List.mem_append.mp hj with hj | hj
        · exact hpost j hj
        · rw [List.mem_singleton.mp hj]
          intro he
          cases he
          exact Nat.lt_irrefl _ hop
  | running hc hk hl ha hq ht => exact (Phase.runs hm hc hk hl ha (hq.step hop hqs) ht).1
  | notifies hcall hc hq ht =>
    have hqt := hq.step hop hqs
    cases hm.starts hc rfl rfl
    exact .notified hcall rfl hqt ((told_report s.d op .notify op).trans (by rw [ht, if_pos rfl]; rfl))
  | notified hcall hc hq ht =>
    have hqt := hq.step hop hqs
    cases hm.closes hc rfl rfl
    subst hcall
    exact .done ⟨hqt, fun k hk => by cases hk⟩ (Or.inl ⟨rfl, Or.inl ht⟩)
  | @opens x hcall hx hc hq ht =>
    have hqt := hq.step hop hqs
    cases hm.starts hc rfl rfl
    rcases hx with ⟨host, port, rfl⟩ | ⟨host, port, rfl⟩
    · exact .opening hcall rfl rfl hqt ht
    · exact .opening hcall rfl rfl hqt ht
  | opening hcall hx hc hq ht =>
    -- nothing ends the action
    obtain ⟨o, ho⟩ := hm.ends hc rfl
    cases e with
    | none => cases ho
    | some o' =>
      obtain ⟨r, hr⟩ := hout o' rfl
      obtain ⟨k, hk, ha⟩ := outstanding_some hr
      cases hc.symm.trans hk
      cases ha
  | done hf ht =>
    have hat := moves_away hm hf.2 fun j rest _ hj => hf.1 j (by rw [hj]; exact List.mem_cons_self)
    refine .done ⟨hf.1.step hop hqs, hat⟩ ?_
    rw [(moves_told hm hf.2).1]
    exact ht

theorem Phase.step {ev : Ev} (h : Phase s op c) (hop : op < s.d.operations) (hs : step ae s ev = some t) :
    Phase t op c := by
  rcases step_split hs with ⟨e, hm, -, he⟩ | hb
  · exact h.moves hop hm (fun o ho => (he o ho).2) (step_queues hs)
  · exact h.beside hop hb

/-- The object of an `OpenNetwork` is never told anything. -/
theorem Phase.silent (h : Phase s op c) (hn : c.network = true) : told s.d op = [] := by
  cases h with
  | queued _ _ _ _ ht _ => exact ht
  | running _ _ _ _ _ ht => exact ht
  | notifies _ _ _ ht => exact ht
  | notified hcall _ _ _ => rw [hcall] at hn; cases hn
  | opens _ _ _ _ ht => exact ht
  | opening _ _ _ _ ht => exact ht
  | done _ ht =>
    rcases ht with ⟨hf, -⟩ | ⟨-, ht⟩
    · rw [hn] at hf; cases hf
    · exact ht

/-- The head is the object's pipeline at its end: all its stages are over, or it is the
    last one that tells the object. -/
def AtEnd (s : St) (op : Nat) : Prop :=
  ∃ k, s.cur = some k ∧ Names k op ∧ k.act = none ∧ (k.rest = [] ∨ k.rest = [.notify op])

theorem told_step {ev : Ev} (h : step ae s ev = some t) (ha : Away s op) :
    told t.d op = told s.d op ∧ answersOf t.d op = answersOf s.d op := by
  rcases step_split h with ⟨e, hm, -⟩ | hb
  · exact moves_told hm ha
  · rw [hb.d]; exact ⟨rfl, rfl⟩

/-- An object is told success at the end of its own pipeline only. -/
theorem Phase.success {ev : Ev} {r : Report} (h : Phase s op c) (hop : op < s.d.operations)
    (hs : Lora.step ae s ev = some t) (hr : r ∈ told t.d op) (hn : r ∉ told s.d op) (hsucc : r.success = true) :
    AtEnd s op := by
  have silent : c.network = true → False := by
    intro hnet
    rw [(h.step hop hs).silent hnet] at hr
    cases hr
  cases h with
  | queued _ _ _ ha _ _ => exact absurd (by rw [← (told_step hs ha).1]; exact hr) hn
  | @running k hc hk hl ha hq ht =>
    rcases step_split hs with ⟨e, hm, -⟩ | hb
    · obtain ⟨hact, hrest⟩ := (Phase.runs hm hc hk hl ha (hq.step hop (step_queues hs)) ht).2 r hr hsucc
      exact ⟨k, hc, Or.inl (by rw [hk]; rfl), hact, Or.inl hrest⟩
    · rw [hb.d] at hr
      exact absurd hr hn
  | notifies _ hc _ _ => exact ⟨_, hc, Or.inr (Or.inl ⟨.notify op, by simp, rfl⟩), rfl, Or.inr rfl⟩
  | notified _ hc _ _ => exact ⟨_, hc, Or.inr (Or.inl ⟨.notify op, by simp, rfl⟩), rfl, Or.inl rfl⟩
  | opens hcall _ _ _ _ => exact (silent hcall).elim
  | opening hcall _ _ _ _ => exact (silent hcall).elim
  | done hf _ => exact absurd (by rw [← (told_step hs hf.2).1]; exact hr) hn

/-! ## Every run -/

theorem away_step {ev : Ev} (h : step ae s ev = some t) (ha : Away s op) (hq : Unqueued s op) : Away t op := by
  rcases step_split h with ⟨e, hm, -⟩ | hb
  · exact moves_away hm ha fun j rest _ hj => hq j (by rw [hj]; exact List.mem_cons_self)
  · intro k hk
    exact ha k (by rw [← hb.cur]; exact hk)

structure Sound (h : Logged) : Prop where
  length : h.calls.length = h.s.d.operations
  queue : ∀ op c, .operation op c ∈ h.s.queue → h.calls[op]? = some c
  phase : ∀ op c, h.calls[op]? = some c → Phase h.s op c
  fresh : ∀ op, h.s.d.operations ≤ op → Unqueued h.s op ∧ Away h.s op ∧ told h.s.d op = [] ∧ answersOf h.s.d op = []

theorem construct_sound (i : LoraGatewayInit) : Sound (.construct i) where
  length := rfl
  queue op c h := by cases List.mem_singleton.mp h
  phase op c h := by cases h
  fresh op _ := by
    refine ⟨fun j hj => ?_, fun k hk => (by cases hk), rfl, rfl⟩
    rw [List.mem_singleton.mp hj]
    exact fun ho => by cases ho

section
variable {h h' : Logged} {ev : Ev}

theorem Logged.step_some (hs : h.step ae ev = some h') :
    Lora.step ae h.s ev = some h'.s ∧ h'.calls = h.calls ++ (handsOut h.s ev).toList ∧
      h'.began = h.began ++ (begins h.s ev).toList.map (·, h.s.d.atMode) := by
  obtain ⟨t, ht, rfl⟩ := Option.map_eq_some_iff.mp hs
  exact ⟨ht, rfl, rfl⟩

theorem Sound.lt (hh : Sound h) (hc : h.calls[op]? = some c) : op < h.s.d.operations := by
  rw [← hh.length]
  exact (List.getElem?_eq_some_iff.mp hc).1

/-- A call in the history stays there. -/
theorem Logged.calls_step (hs : h.step ae ev = some h') (hc : h.calls[op]? = some c) : h'.calls[op]? = some c := by
  rw [(Logged.step_some hs).2.1]
  exact (List.getElem?_append_left (List.getElem?_eq_some_iff.mp hc).1).trans hc

/-- A call that a step adds is the one it hands out, and its stage is the last on the queue. -/
theorem Sound.added (hh : Sound h) (hs : h.step ae ev = some h') (hc : h'.calls[op]? = some c)
    (hn : h.calls[op]? ≠ some c) :
    op = h.s.d.operations ∧ h'.s.queue = h.s.queue ++ [.operation op c] := by
  obtain ⟨ht, hcalls, -⟩ := Logged.step_some hs
  rw [hcalls] at hc
  have hlt : ¬ op < h.calls.length := by
    intro hlt
    rw [List.getElem?_append_left hlt] at hc
    exact hn hc
  rw [List.getElem?_append_right (Nat.le_of_not_lt hlt)] at hc
  cases step_queues ht with
  | took _ _ _ hout _ => rw [hout] at hc; cases hc
  | added _ _ hout _ => rw [hout] at hc; cases hc
  | @handed c' hq hout _ =>
    rw [hout, Option.toList_some, List.getElem?_singleton] at hc
    split at hc
    · have hop : op = h.s.d.operations := by
        rw [← hh.length]
        omega
      cases hc
      exact ⟨hop, by rw [hop]; exact hq⟩
    · cases hc

/-- The object of the head was handed out, and it is in a phase. -/
theorem Sound.called {k : Cur Handler Stage Act} (hh : Sound h) (hc : h.s.cur = some k) (hn : Names k op) :
    ∃ c, h.calls[op]? = some c ∧ Phase h.s op c := by
  by_cases hop : op < h.calls.length
  · exact ⟨_, List.getElem?_eq_getElem hop, hh.phase op _ (List.getElem?_eq_getElem hop)⟩
  · rw [hh.length] at hop
    exact absurd hn ((hh.fresh op (Nat.le_of_not_lt hop)).2.1 k hc)

/-- A pipeline that an object is told the end of is the pipeline of its call, and it was not told before. -/
theorem Phase.pipeline {k : Cur Handler Stage Act} (hp : Phase s op c) (hc : s.cur = some k)
    (hk : k.handler = .operation op) :
    (∃ d, callPipeline d op c = some (.operation op, k.ran ++ k.rest)) ∧ Unqueued s op ∧ told s.d op = [] := by
  have away : ¬ Away s op := fun ha => ha k hc (Or.inl (by rw [hk]; rfl))
  cases hp with
  | queued _ _ _ ha _ _ => exact absurd ha away
  | running hc' _ hl _ hq ht => cases hc.symm.trans hc'; exact ⟨hl, hq, ht⟩
  | notifies _ hc' _ _ => cases hc.symm.trans hc'; cases hk
  | notified _ hc' _ _ => cases hc.symm.trans hc'; cases hk
  | opens _ _ hc' _ _ => cases hc.symm.trans hc'; cases hk
  | opening _ _ hc' _ _ => cases hc.symm.trans hc'; cases hk
  | done hf _ => exact absurd hf.2 away

theorem step_fresh (hh : Sound h) (hs : Lora.step ae h.s ev = some t) (hop : t.d.operations ≤ op) :
    Unqueued t op ∧ Away t op ∧ told t.d op = [] ∧ answersOf t.d op = [] := by
  have hq := step_queues hs
  have hle : h.s.d.operations ≤ op := by
    cases hq with
    | took _ _ _ _ ho => omega
    | added _ _ _ ho => omega
    | handed _ _ ho => omega
  obtain ⟨hun, ha, htold, hans⟩ := hh.fresh op hle
  obtain ⟨htt, hat⟩ := told_step hs ha
  refine ⟨fun j hj => ?_, away_step hs ha hun, htt.trans htold, hat.trans hans⟩
  cases hq with
  | took _ _ hq _ _ => exact hun j (by rw [hq]; exact List.mem_cons_of_mem _ hj)
  | added hq hjobs _ _ =>
    rw [hq] at hj
    rcases List.mem_append.mp hj with hj | hj
    · exact hun j hj
    · rw [hjobs j hj]
      exact fun ho => by cases ho
  | handed hq _ ho =>
    rw [hq] at hj
    rcases List.mem_append.mp hj with hj | hj
    · exact hun j hj
    · rw [List.mem_singleton.mp hj]
      intro he
      cases he
      omega

theorem step_sound (hs : h.step ae ev = some h') (hh : Sound h) : Sound h' := by
  obtain ⟨ht, hcalls, -⟩ := Logged.step_some hs
  have hq := step_queues ht
  refine ⟨?_, fun op c hj => ?_, fun op c hc => ?_, fun op hop => step_fresh hh ht hop⟩
  · rw [hcalls, List.length_append, hh.length]
    cases hq with
    | took _ _ _ hout ho => rw [hout, ho]; rfl
    | added _ _ hout ho => rw [hout, ho]; rfl
    | handed _ hout ho => rw [hout, ho]; rfl
  · cases hq with
    | took _ _ hq _ _ => exact Logged.calls_step hs (hh.queue op c (by rw [hq]; exact List.mem_cons_of_mem _ hj))
    | added hq hjobs _ _ =>
      rw [hq] at hj
      rcases List.mem_append.mp hj with hj | hj
      · exact Logged.calls_step hs (hh.queue op c hj)
      · cases hjobs _ hj
    | handed hq hout _ =>
      rw [hq] at hj
      rcases List.mem_append.mp hj with hj | hj
      · exact Logged.calls_step hs (hh.queue op c hj)
      · cases List.mem_singleton.mp hj
        rw [hcalls, hout, ← hh.length]
        exact List.getElem?_concat_length
  · by_cases hold : h.calls[op]? = some c
    · exact (hh.phase op c hold).step (hh.lt hold) ht
    · -- the object handed out
      obtain ⟨rfl, hqueue⟩ := hh.added hs hc hold
      obtain ⟨hun, ha, htold, hans⟩ := hh.fresh h.s.d.operations (Nat.le_refl _)
      obtain ⟨htt, hat⟩ := told_step ht ha
      exact .queued hqueue hun (fun j hj => absurd hj List.not_mem_nil) (away_step ht ha hun) (htt.trans htold)
        (hat.trans hans)

end

end AetherGateway.Lora
