/-
  AetherGateway.Lora.Transcript — the serial line of the driver over a run (see
  `AetherGateway.Lora.Operations`, `AetherGateway.Lora.Drain`).

  The transcript of a handler is the AT requests of its pipeline that have ended.
  - `step_turn`: what a step does to the queue and to the pipeline at its head.
  - `InTurn.step`: the queue takes `Init`, then the operations in the order of their calls.
  - `serial_line`: what was written to the serial port is the transcript of `Init`, then
    those of the operations one after another, and the one request that is outstanding.
-/

import AetherGateway.Lora.AtMode
import AetherGateway.Lora.Drain

namespace AetherGateway.Lora

open AetherGateway.SerialQueue AetherGateway.Runs

variable {ae : Aether} {s t : St} {d : Driver} {op : Nat} {c : Call}

/-! ## The queue in turn -/

/-- What a stage that starts queues is what the step hands out. -/
theorem started_handsOut {k : Cur Handler Stage Act} {x : Stage} {rest : List Stage} {d' : Driver} {jobs : List Job}
    {r : Started Act} (hc : s.cur = some k) (ha : k.act = none) (hr : k.rest = x :: rest)
    (hs : startStage s.d x = (d', jobs, r)) : jobs = (handsOut s .run).toList.map (.operation s.d.operations) := by
  unfold handsOut
  rw [nextStage_some hc ha hr]
  rcases (startStage_starts hs).pushes with ⟨hx, rfl, -⟩ | ⟨c, rfl, hc, rfl, -⟩
  · cases x with
    | operation c => simp [hx c rfl]
    | _ => rfl
  · simp [hc]

theorem idle_handsOut (hn : nextStage s = none) : handsOut s .run = none := by
  unfold handsOut
  rw [hn]

/-- The queue takes its first job, or the head goes on and what it hands out is queued. -/
theorem step_turn {ev : Ev} (hu : Unpolled s) (h : step ae s ev = some t) :
    (∃ j, s.queue = j :: t.queue ∧ handsOut s ev = none ∧
      ∀ k, t.cur = some k → ∃ d, pipeline d j = some (k.handler, k.ran ++ k.rest)) ∨
    (t.queue = s.queue ++ (handsOut s ev).toList.map (.operation s.d.operations) ∧
      ∀ k', t.cur = some k' → ∃ k, s.cur = some k ∧ k.handler = k'.handler ∧ k.ran ++ k.rest = k'.ran ++ k'.rest) := by
  have queued : ∀ {k : Cur Handler Stage Act} {x : Stage} {rest : List Stage} {d' : Driver} {jobs : List Job}
      {r : Started Act}, s.cur = some k → k.act = none → k.rest = x :: rest → startStage s.d x = (d', jobs, r) →
      s.queue ++ jobs = s.queue ++ (handsOut s .run).toList.map (.operation s.d.operations) :=
    fun hc ha hr hs => congrArg _ (started_handsOut hc ha hr hs)
  have idle : nextStage s = none → s.queue = s.queue ++ (handsOut s .run).toList.map (.operation s.d.operations) := by
    intro hn
    rw [idle_handsOut hn]
    exact (List.append_nil _).symm
  cases ev with
  | call c =>
    cases h
    refine Or.inr ⟨?_, fun k hk => ⟨k, hk, rfl, rfl⟩⟩
    show s.queue ++ (call s.d c).2.1 = _
    unfold call handsOut
    by_cases hc : c.refused = true <;> simp [hc]
  | run =>
    cases next_moves h with
    | skip hc hq hp =>
      exact Or.inl ⟨_, hq, by simp [handsOut, nextStage, hc], fun k hk => by cases hk⟩
    | opened hc hq hp =>
      refine Or.inl ⟨_, hq, by simp [handsOut, nextStage, hc], fun k hk => ?_⟩
      cases hk
      exact ⟨s.d, hp⟩
    | finished hc ha hr => exact Or.inr ⟨idle (by simp [nextStage, hc, ha, hr]), fun k hk => by cases hk⟩
    | waits hc ha hr hs =>
      refine Or.inr ⟨queued hc ha hr hs, fun k hk => ⟨_, hc, ?_⟩⟩
      cases hk
      exact ⟨rfl, by rw [hr]; exact List.append_cons ..⟩
    | passed hc ha hr hs hnull =>
      refine Or.inr ⟨queued hc ha hr hs, fun k hk => ⟨_, hc, ?_⟩⟩
      cases hk
      exact ⟨rfl, by rw [hr]; exact List.append_cons ..⟩
    | nullFailed hc ha hr hs hnull => exact Or.inr ⟨queued hc ha hr hs, fun k hk => by cases hk⟩
    | actResult hc ha he =>
      refine Or.inr ⟨idle (by simp [nextStage, hc, ha]), fun k hk => ⟨_, hc, ?_⟩⟩
      cases hk
      exact ⟨rfl, rfl⟩
    | actFailed hc ha he ho => exact Or.inr ⟨idle (by simp [nextStage, hc, ha]), fun k hk => by cases hk⟩
  | answer a =>
    obtain ⟨r, -, h⟩ := Option.bind_eq_some_iff.mp h
    cases finishAct_moves h with
    | actResult hc ha he =>
      refine Or.inr ⟨(List.append_nil _).symm, fun k hk => ⟨_, hc, ?_⟩⟩
      cases hk
      exact ⟨rfl, rfl⟩
    | actFailed hc ha he ho => exact Or.inr ⟨(List.append_nil _).symm, fun k hk => by cases hk⟩
  | pollTask =>
    rw [hu.vain h (Or.inl rfl)]
    exact Or.inr ⟨(List.append_nil _).symm, fun k hk => ⟨k, hk, rfl, rfl⟩⟩
  | xpoll handle flags =>
    rw [hu.vain h (Or.inr ⟨handle, flags, rfl⟩)]
    exact Or.inr ⟨(List.append_nil _).symm, fun k hk => ⟨k, hk, rfl, rfl⟩⟩

/-- The jobs in the order they are queued: `Init`, then the operations as they are called. -/
def Logged.jobs (h : Logged) : List Job := .init :: h.calls.mapIdx .operation

/-- The jobs `taken` so far; the head is the pipeline of the last of them. -/
structure InTurn (h : Logged) (taken : List Job) : Prop where
  jobs : h.jobs = taken ++ h.s.queue
  head : ∀ k, h.s.cur = some k → ∃ j d, taken.getLast? = some j ∧ pipeline d j = some (k.handler, k.ran ++ k.rest)

section
variable {h h' : Logged} {ev : Ev} {taken : List Job}

theorem construct_inTurn (i : LoraGatewayInit) : InTurn (.construct i) [] := ⟨rfl, fun k hk => by cases hk⟩

theorem InTurn.step (hi : InTurn h taken) (hq : Quietable h) (hs : h.step ae ev = some h') :
    ∃ taken', InTurn h' taken' := by
  obtain ⟨ht, hcalls, -⟩ := Logged.step_some hs
  have hjobs : h'.jobs = h.jobs ++ (handsOut h.s ev).toList.map (.operation h.s.d.operations) := by
    unfold Logged.jobs
    rw [hcalls, ← hq.sound.length]
    cases handsOut h.s ev with
    | none => rw [Option.toList_none, List.append_nil, List.map_nil, List.append_nil]
    | some c => rw [Option.toList_some, List.mapIdx_concat, List.map_singleton, List.cons_append]
  rcases step_turn hq.unpolled ht with ⟨j, hqueue, hnone, hpipe⟩ | ⟨hqueue, hsame⟩
  · refine ⟨taken ++ [j], ?_, fun k hk => ?_⟩
    · rw [hjobs, hnone, hi.jobs, hqueue, List.append_assoc, List.append_assoc]
      exact congrArg (taken ++ j :: ·) (List.append_nil _)
    · obtain ⟨d, hd⟩ := hpipe k hk
      exact ⟨j, d, List.getLast?_concat, hd⟩
  · refine ⟨taken, ?_, fun k' hk' => ?_⟩
    · rw [hjobs, hi.jobs, hqueue, List.append_assoc]
    · obtain ⟨k, hk, hh, hst⟩ := hsame k' hk'
      obtain ⟨j, d, hj, hp⟩ := hi.head k hk
      exact ⟨j, d, hj, by rw [hp, hh, hst]⟩

def Job.place : Job → Nat
  | .operation op _ => op + 1
  | _ => 0

theorem jobs_place {n : Nat} {j : Job} (hj : h.jobs[n]? = some j) : j.place = n := by
  cases n with
  | zero => cases hj; rfl
  | succ n =>
    rw [Logged.jobs, List.getElem?_cons_succ, List.getElem?_mapIdx] at hj
    obtain ⟨c, -, rfl⟩ := Option.map_eq_some_iff.mp hj
    rfl

/-- The operations called after the job that was taken last wait on the queue. -/
theorem InTurn.later {j : Job} (hi : InTurn h taken) (hlast : taken.getLast? = some j) (hlt : j.place ≤ op)
    (hc : h.calls[op]? = some c) : .operation op c ∈ h.s.queue := by
  obtain ⟨l, rfl⟩ := List.getLast?_eq_some_iff.mp hlast
  have hjobs := hi.jobs
  have hplace : j.place = l.length := by
    refine jobs_place (h := h) ?_
    rw [hjobs, List.append_assoc, List.getElem?_append_right (Nat.le_refl _), Nat.sub_self]
    rfl
  have hget : h.jobs[op + 1]? = some (.operation op c) := by
    rw [Logged.jobs, List.getElem?_cons_succ, List.getElem?_mapIdx, hc]
    rfl
  have hlen : (l ++ [j]).length ≤ op + 1 := by
    rw [List.length_append, List.length_singleton]
    omega
  rw [hjobs, List.getElem?_append_right hlen] at hget
  exact List.mem_of_getElem? hget

/-- So they have no answer yet. -/
theorem InTurn.unanswered {j : Job} (hi : InTurn h taken) (hh : Sound h) (hlast : taken.getLast? = some j)
    (hlt : j.place ≤ op) : answersOf h.s.d op = [] := by
  cases hc : h.calls[op]? with
  | none =>
    have hop := List.getElem?_eq_none_iff.mp hc
    rw [hh.length] at hop
    exact (hh.fresh op hop).2.2.2
  | some c =>
    have hmem := hi.later hlast hlt hc
    have absent : Unqueued h.s op → answersOf h.s.d op = [] := fun hu => absurd rfl (hu _ hmem)
    cases hh.phase op c hc with
    | queued _ _ _ _ _ hn => exact hn
    | running _ _ _ _ hu _ => exact absent hu
    | notifies _ _ hu _ => exact absent hu
    | notified _ _ hu _ => exact absent hu
    | opens _ _ _ hu _ => exact absent hu
    | opening _ _ _ hu _ => exact absent hu
    | done hf _ => exact absent hf.1

/-! ## The serial line -/

def transcript (d : Driver) (k : Handler) : List (AtRequest × Ended) := (d.answers.filter (·.1 == k)).map (·.2)

/-- No request is outstanding for a pipeline that tells nobody its end. -/
theorem Phase.unrequested {k : Cur Handler Stage Act} {r : AtRequest} (hp : Phase s op c) (hc : s.cur = some k)
    (hn : Names k op) (hk : k.handler = .nobody) : k.act ≠ some (.request r) := by
  intro ha
  have away : ¬ Away s op := fun h => h k hc hn
  cases hp with
  | queued _ _ _ h _ _ => exact away h
  | running hc' hk' _ _ _ _ =>
    cases hc.symm.trans hc'
    cases hk.symm.trans hk'
  | notifies _ hc' _ _ => cases hc.symm.trans hc'; cases ha
  | notified _ hc' _ _ => cases hc.symm.trans hc'; cases ha
  | opens _ _ hc' _ _ => cases hc.symm.trans hc'; cases ha
  | opening _ _ hc' _ _ => cases hc.symm.trans hc'; cases ha
  | done hf _ => exact away hf.2

/-- The pipeline of a request is that of `Init` or of an operation, taken last. -/
theorem InTurn.requests {k : Cur Handler Stage Act} {r : AtRequest} (hi : InTurn h taken) (hh : Sound h)
    (hk : h.s.cur = some k) (ha : k.act = some (.request r)) :
    ∃ j, taken.getLast? = some j ∧
      (k.handler = .init ∧ j.place = 0 ∨ ∃ op, k.handler = .operation op ∧ j.place = op + 1) := by
  obtain ⟨j, d, hj, hp⟩ := hi.head k hk
  refine ⟨j, hj, ?_⟩
  cases j with
  | init => exact Or.inl ⟨(congrArg Prod.fst (Option.some.inj hp)).symm, rfl⟩
  | poll =>
    have hmem : Job.poll ∈ h.jobs := by rw [hi.jobs]; exact List.mem_append_left _ (List.mem_of_getLast? hj)
    obtain ⟨n, hn⟩ := List.mem_iff_getElem?.mp hmem
    have h0 := jobs_place hn
    cases n with
    | zero => cases hn
    | succ n => cases h0
  | readPacket => cases hp
  | operation op c =>
    -- a pipeline that tells nobody names the object in its one stage
    have named : ∀ {x : Stage}, k.ran ++ k.rest = [x] → x.op? = some op → k.handler = .nobody → False := by
      intro x hl hx hnobody
      have hn : Names k op := Or.inr (Or.inl ⟨x, by rw [hl]; exact List.mem_singleton_self x, hx⟩)
      obtain ⟨c', -, hphase⟩ := hh.called hk hn
      exact hphase.unrequested hk hn hnobody ha
    rcases callPipeline_cases hp with ⟨hhandler, -⟩ | ⟨-, -, hnobody, hl⟩ | ⟨-, -, hnobody, x, hl, hx⟩
    · exact Or.inr ⟨op, hhandler, rfl⟩
    · exact (named hl rfl hnobody).elim
    · rcases hx with ⟨host, port, rfl⟩ | ⟨host, port, rfl⟩ <;> exact (named hl rfl hnobody).elim

end

theorem actEnded_answers (d : Driver) (k : Handler) (a : Act) (o : Ended) :
    (actEnded d k a o).answers = d.answers ++ a.request?.toList.map fun r => (k, r, o) := by
  cases a with
  | request r => rfl
  | operation op => exact (List.append_nil _).symm
  | openNetwork op a => cases o <;> exact (List.append_nil _).symm

def Started.request? : Started Act → Option AtRequest
  | .wait a => a.request?
  | _ => none

theorem Starts.line {x : Stage} {d' : Driver} {jobs : List Job} {r : Started Act} (h : Starts d x (d', jobs, r)) :
    d'.wire.map (·.request) = d.wire.map (·.request) ++ (Started.request? r).toList := by
  cases h with
  | enterAtMode | exitAtMode | request | poll => exact List.map_append
  | _ => exact (List.append_nil _).symm

theorem outstanding_eq {k : Cur Handler Stage Act} (hc : s.cur = some k) : outstanding s = k.act.bind Act.request? := by
  unfold outstanding
  rw [waiting_cur hc]
  cases k.act with
  | none => rfl
  | some a => cases a <;> rfl

/-- The wire is what has been answered and what is outstanding. -/
def OneOutstanding (s : St) : Prop := s.d.wire.map (·.request) = s.d.answers.map (·.2.1) ++ (outstanding s).toList

theorem moves_line {e : Option Ended} (hm : Moves (machine ae) s e t) (hl : OneOutstanding s) : OneOutstanding t := by
  unfold OneOutstanding at hl ⊢
  -- nothing is outstanding for a head that waits for nothing
  have quiet : ∀ {s : St}, waiting s = none → (outstanding s).toList = [] := by
    intro s hw
    simp [outstanding, hw]
  have rests : ∀ {k : Cur Handler Stage Act}, s.cur = some k → k.act = none →
      s.d.wire.map (·.request) = s.d.answers.map (·.2.1) := by
    intro k hc ha
    rw [hl, quiet ((waiting_cur hc).trans ha), List.append_nil]
  have ended : ∀ {k : Cur Handler Stage Act} {a : Act} (o : Ended), s.cur = some k → k.act = some a →
      (actEnded s.d k.handler a o).wire.map (·.request) = (actEnded s.d k.handler a o).answers.map (·.2.1) := by
    intro k a o hc ha
    rw [actEnded_frame Driver.wire (fun _ _ _ _ => rfl), hl, outstanding_eq hc, ha, actEnded_answers, List.map_append,
      List.map_map]
    exact congrArg (_ ++ ·) (List.map_id _).symm
  cases hm with
  | skip hc => rw [hl, quiet (by rw [waiting, hc]; rfl)]; rfl
  | opened hc => rw [hl, quiet (by rw [waiting, hc]; rfl)]; rfl
  | finished hc ha hr =>
    rw [machine_closed, closed_frame Driver.wire (fun _ _ _ => rfl), closed_frame Driver.answers (fun _ _ _ => rfl),
      rests hc ha]
    exact (List.append_nil _).symm
  | waits hc ha hr hs =>
    have hst := startStage_starts hs
    rw [outstanding_eq rfl, hst.line, hst.answers, rests hc ha]
    rfl
  | passed hc ha hr hs hnull =>
    have hst := startStage_starts hs
    rw [hst.line, hst.answers, rests hc ha]
    rcases hnull with rfl | ⟨rfl, -⟩ <;> rfl
  | nullFailed hc ha hr hs hnull =>
    have hst := startStage_starts hs
    rw [machine_closed, closed_frame Driver.wire (fun _ _ _ => rfl), closed_frame Driver.answers (fun _ _ _ => rfl),
      hst.line, hst.answers, rests hc ha]
    rfl
  | actResult hc ha he =>
    rw [machine_ended, ended .result hc ha]
    exact (List.append_nil _).symm
  | @actFailed _ _ _ o hc ha he ho =>
    rw [machine_closed, machine_ended, closed_frame Driver.wire (fun _ _ _ => rfl),
      closed_frame Driver.answers (fun _ _ _ => rfl), ended o hc ha]
    exact (List.append_nil _).symm

/-! ## The answers in call order -/

/-- What is added to the last list that is not empty is added to the end. -/
theorem flatMap_range_push {α : Type*} {f g : Nat → List α} {p : α} {m n : Nat} (hm : m < n)
    (hat : g m = f m ++ [p]) (hne : ∀ i, i ≠ m → g i = f i) (hlater : ∀ i, m < i → f i = []) :
    (List.range n).flatMap g = (List.range n).flatMap f ++ [p] := by
  induction n with
  | zero => cases hm
  | succ n ih =>
    rw [List.range_succ, List.flatMap_append, List.flatMap_append, List.flatMap_singleton, List.flatMap_singleton]
    rcases Nat.lt_succ_iff_lt_or_eq.mp hm with hlt | rfl
    · rw [ih hlt, hne n (Nat.ne_of_gt hlt), hlater n hlt, List.append_nil, List.append_nil]
    · have hsame : (List.range m).flatMap g = (List.range m).flatMap f :=
        List.flatMap_congr fun i hi => hne i (Nat.ne_of_lt (List.mem_range.mp hi))
      rw [hsame, hat, List.append_assoc]

theorem flatMap_range_nil {α : Type*} {f : Nat → List α} {m n : Nat} (hm : m ≤ n) (hf : ∀ i, m ≤ i → f i = []) :
    (List.range n).flatMap f = (List.range m).flatMap f := by
  induction hm with
  | refl => rfl
  | @step n hn ih =>
    rw [List.range_succ, List.flatMap_append, ih, List.flatMap_singleton, hf n hn, List.append_nil]

def Grouped (d : Driver) : Prop :=
  d.answers.map (·.2) = transcript d .init ++ (List.range d.operations).flatMap (answersOf d)

theorem transcript_push {d d' : Driver} {k : Handler} {p : AtRequest × Ended} (h : d'.answers = d.answers ++ [(k, p)])
    (k' : Handler) : transcript d' k' = transcript d k' ++ if k' = k then [p] else [] := by
  unfold transcript
  rw [h, List.filter_append, List.map_append]
  by_cases hk : k' = k
  · simp [hk]
  · simp [hk, Ne.symm hk]

theorem moves_answers {e : Option Ended} (hm : Moves (machine ae) s e t) :
    t.d.answers = s.d.answers ∨ ∃ k r o, s.cur = some k ∧ k.act = some (.request r) ∧
      t.d.answers = s.d.answers ++ [(k.handler, r, o)] := by
  refine hm.data (P := fun d => d.answers = s.d.answers ∨ ∃ k r o, s.cur = some k ∧ k.act = some (.request r) ∧
    d.answers = s.d.answers ++ [(k.handler, r, o)]) (Or.inl rfl) (fun k x rest d jobs r _ _ _ hs => ?_)
    (fun k a o hc ha => ?_) (fun k d o _ hd => ?_)
  · exact Or.inl (startStage_starts hs).answers
  · rw [machine_ended, actEnded_answers]
    cases a with
    | request r => exact Or.inr ⟨k, r, o, hc, ha, rfl⟩
    | operation | openNetwork => exact Or.inl (List.append_nil _)
  · rw [machine_closed, closed_frame Driver.answers (fun _ _ _ => rfl)]
    exact hd

section
variable {h h' : Logged} {ev : Ev} {taken : List Job}

structure Line (h : Logged) : Prop where
  quietable : Quietable h
  inTurn : ∃ taken, InTurn h taken
  outstanding : OneOutstanding h.s
  grouped : Grouped h.s.d

theorem construct_line (i : LoraGatewayInit) : Line (.construct i) where
  quietable := construct_quietable i
  inTurn := ⟨[], construct_inTurn i⟩
  outstanding := rfl
  grouped := rfl

/-- More operations have no answers yet. -/
theorem Grouped.mono {d d' : Driver} (hg : Grouped d) (ha : d'.answers = d.answers) (ho : d.operations ≤ d'.operations)
    (hf : ∀ op, d.operations ≤ op → answersOf d op = []) : Grouped d' := by
  have htr : ∀ k, transcript d' k = transcript d k := fun k => by unfold transcript; rw [ha]
  have hans : answersOf d' = answersOf d := funext fun op => htr (.operation op)
  unfold Grouped
  rw [ha, htr, hans, flatMap_range_nil ho hf]
  exact hg

theorem step_grouped (hl : Line h) (hs : h.step ae ev = some h') : Grouped h'.s.d := by
  obtain ⟨ht, -, -⟩ := Logged.step_some hs
  obtain ⟨taken, hi⟩ := hl.inTurn
  have hh := hl.quietable.sound
  have fresh : ∀ op, h.s.d.operations ≤ op → answersOf h.s.d op = [] := fun op hop => (hh.fresh op hop).2.2.2
  rcases step_split ht with ⟨e, hm, -⟩ | hb
  · have hops := moves_operations hm
    rcases moves_answers hm with hsame | ⟨k, r, o, hk, hact, hpush⟩
    · exact hl.grouped.mono hsame hops fresh
    · -- the handler's place is behind those of all that have answers
      obtain ⟨j, hj, hplace⟩ := hi.requests hh hk hact
      have later : ∀ op, j.place ≤ op → answersOf h.s.d op = [] := fun op hop => hi.unanswered hh hj hop
      have hg := hl.grouped
      unfold Grouped at hg ⊢
      rw [← flatMap_range_nil hops fresh] at hg
      rw [hpush, List.map_append, hg, transcript_push hpush]
      rcases hplace with ⟨hinit, h0⟩ | ⟨op, hop, hp⟩
      · have none_before : ∀ op, answersOf h.s.d op = [] := fun op => later op (by omega)
        have none_after : ∀ op, answersOf h'.s.d op = [] := by
          intro op
          refine (transcript_push hpush (.operation op)).trans ?_
          rw [hinit, if_neg (by simp), List.append_nil]
          exact none_before op
        rw [List.flatMap_eq_nil_iff.mpr fun op _ => none_before op, List.flatMap_eq_nil_iff.mpr fun op _ => none_after op,
          hinit, if_pos rfl, List.append_nil, List.append_nil]
        rfl
      · have hlt : op < h'.s.d.operations := by
          obtain ⟨c, hc, -⟩ := hh.called hk (Or.inl (by rw [hop]; rfl))
          exact Nat.lt_of_lt_of_le (hh.lt hc) hops
        rw [hop, if_neg (by simp), List.append_nil, List.append_assoc]
        refine congrArg (transcript h.s.d .init ++ ·) (flatMap_range_push hlt ?_ (fun i hne => ?_) fun i hlt => ?_).symm
        · exact (transcript_push hpush (.operation op)).trans (by rw [hop, if_pos rfl]; rfl)
        · refine (transcript_push hpush (.operation i)).trans ?_
          rw [hop, if_neg (by simpa using hne)]
          exact List.append_nil _
        · exact later i (by omega)
  · refine hl.grouped.mono ?_ ?_ fresh
    · rw [hb.d]
    · cases step_queues ht with
      | took _ _ _ _ ho => exact Nat.le_of_eq ho.symm
      | added _ _ _ ho => exact Nat.le_of_eq ho.symm
      | handed _ _ ho => rw [ho]; exact Nat.le_succ _

/-- Beside the head nothing is sent, answered or reported. -/
theorem Beside.kept {s t : St} (hb : Beside s t) :
    t.d.wire = s.d.wire ∧ t.d.atMode = s.d.atMode ∧ t.d.answers = s.d.answers ∧ t.d.reports = s.d.reports := by
  have hd : ∀ {d₁ d₂ : Driver}, d₁ = { d₂ with operations := d₁.operations } →
      d₁.wire = d₂.wire ∧ d₁.atMode = d₂.atMode ∧ d₁.answers = d₂.answers ∧ d₁.reports = d₂.reports := fun he => by
    rw [he]
    exact ⟨rfl, rfl, rfl, rfl⟩
  exact hd hb.d

theorem step_line (hl : Line h) (hs : h.step ae ev = some h') : Line h' := by
  obtain ⟨ht, -, -⟩ := Logged.step_some hs
  obtain ⟨taken, hi⟩ := hl.inTurn
  refine ⟨step_quietable hl.quietable hs, hi.step hl.quietable hs, ?_, step_grouped hl hs⟩
  rcases step_split ht with ⟨e, hm, -⟩ | hb
  · exact moves_line hm hl.outstanding
  · obtain ⟨hwire, -, hans, -⟩ := hb.kept
    have hout : Lora.outstanding h'.s = Lora.outstanding h.s := by unfold Lora.outstanding waiting; rw [hb.cur]
    unfold OneOutstanding
    rw [hwire, hans, hout]
    exact hl.outstanding

/-- What was written to the serial port is what was answered and at most one request that
    is outstanding; the answers are those of `Init`, then those of each operation's
    pipeline, in the order of the calls. -/
theorem serial_line {i : LoraGatewayInit} {es : List Ev}
    (hx : exec (Logged.step ae) (.construct i) es = some h) :
    h.s.d.wire.map (·.request) =
      (transcript h.s.d .init ++ (List.range h.calls.length).flatMap (answersOf h.s.d)).map Prod.fst ++
        (outstanding h.s).toList := by
  have hl : Line h := invariant (fun _ _ _ => step_line) (construct_line i) hx
  rw [hl.quietable.sound.length, ← hl.grouped, List.map_map]
  exact hl.outstanding

/-- `Init` times out, then a `Stop` has its command outstanding. -/
theorem serial_line_stop :
    let es := [Ev.call .stop, .run, .run, .answer .timeout, .run, .run, .run]
    ∃ h, exec (Logged.step ⟨true, fun _ => none⟩) (.construct .default) es = some h ∧
      (transcript h.s.d .init ++ (List.range h.calls.length).flatMap (answersOf h.s.d)).map Prod.fst ++
        (outstanding h.s).toList = [⟨"+++", [waitEntryAt]⟩, ⟨"AT+RESET", [waitOk]⟩] := by
  intro es
  have hl := serial_line (rfl : exec (Logged.step ⟨true, fun _ => none⟩) (.construct .default) es = some _)
  exact ⟨_, rfl, hl.symm.trans rfl⟩

end

end AetherGateway.Lora
