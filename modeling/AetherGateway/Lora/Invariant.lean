/-
  AetherGateway.Lora.Invariant — what holds in every run of `AetherGateway.Lora.Driver`.

  - `step_cases`: what a step does: a public call, a step of the serial queue, or more
    stages on the queue.
  - `pipeline_bracketed`: the shape of every pipeline: its AT requests stand between one
    `enterAtMode` and one `exitAtMode`, or it has none.
  - `step_shaped`: between the two the driver's flag is set.
  - `step_named`: whatever names an operation object names one that was handed out.
-/

import Mathlib.Data.List.Basic
import AetherGateway.Lora.Driver

namespace AetherGateway.Lora

open AetherGateway.SerialQueue AetherGateway.Runs

variable {ae : Aether} {s t : St} {d : Driver}

/-! ## Stages -/

@[simp] theorem machine_ended (k : Handler) (a : Act) (o : Ended) : (machine ae).ended d k a o = actEnded d k a o := rfl

@[simp] theorem machine_closed (k : Handler) (o : Ended) : (machine ae).closed d k o = closed d k o := rfl

inductive Starts (d : Driver) : Stage → Driver × List Job × Started Act → Prop where
  | enterAtMode (h : d.atMode = false) : Starts d .enterAtMode
      ({ d with atMode := true, wire := d.wire ++ [⟨⟨"+++", [waitEntryAt]⟩, d.moduleAtMode⟩] }, [],
        .wait (.request ⟨"+++", [waitEntryAt]⟩))
  | exitAtMode (h : d.atMode = true) : Starts d .exitAtMode
      ({ d with atMode := false, wire := d.wire ++ [⟨⟨"+++", [waitExitAt, waitPowerOn]⟩, d.moduleAtMode⟩] }, [],
        .wait (.request ⟨"+++", [waitExitAt, waitPowerOn]⟩))
  | request (command : String) : Starts d (.request command)
      ({ d with wire := d.wire ++ [⟨⟨command, [waitOk]⟩, d.moduleAtMode⟩] }, [], .wait (.request ⟨command, [waitOk]⟩))
  | poll : Starts d .poll
      ({ d with wire := d.wire ++ [⟨⟨"#XPOLL=0" ++ handles d, [waitOk]⟩, d.moduleAtMode⟩] }, [],
        .wait (.request ⟨"#XPOLL=0" ++ handles d, [waitOk]⟩))
  | entered (h : d.atMode = true) : Starts d .enterAtMode (d, [], .null)
  | exited (h : d.atMode = false) : Starts d .exitAtMode (d, [], .null)
  | null : Starts d .null (d, [], .null)
  | refused {c : Call} (h : c.refused = true) : Starts d (.operation c) (d, [], .null)
  | operation {c : Call} (h : c.refused = false) : Starts d (.operation c)
      ({ d with operations := d.operations + 1 }, [.operation d.operations c], .wait (.operation d.operations))
  | openTcp (op : Nat) (host : String) (port : UInt16) : Starts d (.openTcp op host port)
      (d, [], .wait (.openNetwork op (.make host port)))
  | openUdp (op : Nat) (host : String) (port : UInt16) : Starts d (.openUdp op host port)
      (d, [], .wait (.openNetwork op (.make host port)))
  | notify (op : Nat) : Starts d (.notify op) ({ d with reports := d.reports ++ [(op, .notify)] }, [], .done)
  | started : Starts d .started ({ d with started := true, polls := d.polls + 1 }, [], .done)
  | initiated : Starts d .initiated ({ d with initiated := true }, [], .done)

theorem startStage_starts {x : Stage} {r : Driver × List Job × Started Act} (h : startStage d x = r) :
    Starts d x r := by
  subst h
  cases x with
  | enterAtMode =>
    cases h : d.atMode with
    | false => simp only [startStage, enterAtMode, makeRequest, h, if_true]; exact .enterAtMode h
    | true => simp only [startStage, enterAtMode, h, Bool.true_eq_false, if_false]; exact .entered h
  | exitAtMode =>
    cases h : d.atMode with
    | true => simp only [startStage, exitAtMode, makeRequest, h, if_true]; exact .exitAtMode h
    | false => simp only [startStage, exitAtMode, h, Bool.false_eq_true, if_false]; exact .exited h
  | operation c =>
    cases h : c.refused with
    | true => simp only [startStage, call, h, if_true]; exact .refused h
    | false => simp only [startStage, call, h, Bool.false_eq_true, if_false]; exact .operation h
  | request command => exact .request command
  | null => exact .null
  | openTcp op host port => exact .openTcp op host port
  | openUdp op host port => exact .openUdp op host port
  | poll => exact .poll
  | notify op => exact .notify op
  | started => exact .started
  | initiated => exact .initiated

/-- The end of a pipeline leaves all but two histories alone. -/
theorem closed_frame {α : Type} (f : Driver → α) (hf : ∀ d rs es, f { d with reports := rs, ended := es } = f d)
    (d : Driver) (k : Handler) (o : Ended) : f (closed d k o) = f d := by
  cases k with
  | operation op => cases o <;> exact hf d _ _
  | init => exact hf d d.reports _
  | nobody => exact hf d d.reports _

/-- The end of an action leaves all but the module and two histories alone. -/
theorem actEnded_frame {α : Type} (f : Driver → α)
    (hf : ∀ d m as rs, f { d with moduleAtMode := m, answers := as, reports := rs } = f d) (d : Driver) (k : Handler)
    (a : Act) (o : Ended) : f (actEnded d k a o) = f d := by
  cases a with
  | request r => exact hf d _ _ d.reports
  | operation op => rfl
  | openNetwork op a =>
    cases o with
    | result => exact hf d d.moduleAtMode d.answers _
    | error => exact hf d d.moduleAtMode d.answers _
    | stop => rfl

/-! ## Steps -/

/-- The operation object that a stage, a handler, an action or a job is to tell something. -/
def Stage.op? : Stage → Option Nat
  | .notify op => some op
  | .openTcp op _ _ => some op
  | .openUdp op _ _ => some op
  | _ => none

def Handler.op? : Handler → Option Nat
  | .operation op => some op
  | _ => none

def Act.op? : Act → Option Nat
  | .openNetwork op _ => some op
  | _ => none

def Job.op? : Job → Option Nat
  | .operation op _ => some op
  | _ => none

inductive Stepped (ae : Aether) (s : St) : Ev → St → Prop where
  | call (c : Call) : Stepped ae s (.call c) { push s (call s.d c).2.1 with d := (call s.d c).1 }
  | run {t : St} (h : Moves (machine ae) s none t) : Stepped ae s .run t
  | answer {t : St} {r : AtRequest} (a : Answer) (hr : outstanding s = some r)
      (h : Moves (machine ae) s (some a.ended) t) : Stepped ae s (.answer a) t
  | pushed {ev : Ev} {jobs : List Job} (h : ∀ j ∈ jobs, j.op? = none) : Stepped ae s ev (push s jobs)

theorem outstanding_some {r : AtRequest} (h : outstanding s = some r) :
    ∃ c, s.cur = some c ∧ c.act = some (.request r) := by
  unfold outstanding at h
  split at h
  · obtain ⟨c, hc, ha⟩ := Option.bind_eq_some_iff.mp ‹waiting s = _›
    cases h
    exact ⟨c, hc, ha⟩
  · cases h

theorem push_nil (s : St) : push s [] = s := by
  unfold push
  rw [List.append_nil]

theorem pollEvent_pushed (s : St) (handle : Int32) (flags : String) :
    ∃ jobs, pollEvent ae s handle flags = push s jobs ∧ ∀ j ∈ jobs, j.op? = none := by
  have hnil : s = push s [] ∧ ∀ j ∈ ([] : List Job), j.op? = none :=
    ⟨(push_nil s).symm, fun j hj => absurd hj List.not_mem_nil⟩
  unfold pollEvent
  split
  · exact ⟨[], hnil⟩
  · split
    · exact ⟨[], hnil⟩
    · split
      · exact ⟨_, rfl, fun j hj => by rw [List.mem_singleton.mp hj]; rfl⟩
      · exact ⟨[], hnil⟩

theorem step_cases {ev : Ev} (h : step ae s ev = some t) : Stepped ae s ev t := by
  cases ev with
  | call c => cases h; exact .call c
  | run => exact .run (next_moves h)
  | answer a =>
    obtain ⟨r, hr, h⟩ := Option.bind_eq_some_iff.mp h
    exact .answer a hr (finishAct_moves h)
  | pollTask =>
    simp only [step] at h
    split at h
    · split at h
      · cases h
        have hp : Stepped ae s .pollTask (push s []) := .pushed fun j hj => absurd hj List.not_mem_nil
        rwa [push_nil] at hp
      · cases h
        exact .pushed fun j hj => by rw [List.mem_singleton.mp hj]; rfl
    · cases h
  | xpoll handle flags =>
    simp only [step] at h
    split at h
    · cases h
      obtain ⟨jobs, hj, hn⟩ := @pollEvent_pushed ae s handle flags
      rw [hj]; exact .pushed hn
    · cases h

/-! ## Pipelines -/

/-- A stage between `enterAtMode` and `exitAtMode`; a command starts with 'A'. -/
def Stage.inner : Stage → Bool
  | .request command => command.toList.head? = some 'A'
  | .null => true
  | .operation _ => true
  | _ => false

def Stage.outer (o : Option Nat) : Stage → Bool
  | .enterAtMode => false
  | .exitAtMode => false
  | .request _ => false
  | .notify op => o = some op
  | .openTcp op _ _ => o = some op
  | .openUdp op _ _ => o = some op
  | _ => true

inductive Bracketed (o : Option Nat) : List Stage → Prop where
  | plain {l : List Stage} (h : ∀ x ∈ l, x.outer o) : Bracketed o l
  | bracket {mids tail : List Stage} (hm : ∀ x ∈ mids, x.inner) (ht : ∀ x ∈ tail, x.outer o) :
      Bracketed o (.enterAtMode :: (mids ++ .exitAtMode :: tail))

theorem inner_append {p : String} (q : String) (h : p.toList.head? = some 'A') : (Stage.request (p ++ q)).inner := by
  show decide ((p ++ q).toList.head? = some 'A') = true
  rw [String.toList_append, List.head?_append, h]
  rfl

theorem setLoraGatewayBandWidth_inner (b : LoraGatewayBandWidth) : (setLoraGatewayBandWidth b).inner := by
  cases b <;> decide

theorem setupSerialPort_inner (i : SerialInit) : ∀ x ∈ setupSerialPort i, x.inner := by
  have hb : (setBaudRate i.baudRate).inner := by cases i.baudRate <;> decide
  have hp : (setParity i.parity).inner := by cases i.parity <;> decide
  have hs : (setStopBits i.stopBits).inner := by cases i.stopBits <;> decide
  simp only [setupSerialPort, List.forall_mem_cons, hb, hp, hs, true_and]
  exact fun x hx => absurd hx List.not_mem_nil

theorem init_bracketed (i : LoraGatewayInit) (o : Option Nat) : Bracketed o (init i) := by
  have hm : ∀ x ∈ [.request "AT"] ++ setupSerialPort i.serialInit ++ [.operation (.setPowerSaveParam i.psp)] ++
      setupLoraNet i, x.inner := by
    intro x hx
    simp only [List.mem_append] at hx
    rcases hx with ((hx | hx) | hx) | hx
    · rw [List.mem_singleton.mp hx]; decide
    · exact setupSerialPort_inner i.serialInit x hx
    · rw [List.mem_singleton.mp hx]; rfl
    · simp only [setupLoraNet, List.mem_cons, List.not_mem_nil, or_false] at hx
      rcases hx with rfl | rfl | rfl | rfl <;> rfl
  have ht : ∀ x ∈ [Stage.initiated], x.outer o := fun x hx => by rw [List.mem_singleton.mp hx]; rfl
  exact .bracket hm ht

theorem setPowerSaveParam_bracketed (psp : LoraGatewayPowerSaveParam) (o : Option Nat) :
    Bracketed o (setPowerSaveParam psp) := by
  have hm : ∀ x ∈ [setLoraGatewayMode psp.loraGatewayMode, setLoraGatewayLevel psp.loraGatewayLevel,
      setLoraGatewayPower psp.loraGatewayPower, setLoraGatewayBandWidth psp.loraGatewayBandWidth,
      setLoraGatewayCodingRate psp.loraGatewayCodingRate,
      setLoraGatewaySpreadingFactor psp.loraGatewaySpreadingFactor], x.inner := by
    intro x hx
    simp only [List.mem_cons, List.not_mem_nil, or_false] at hx
    rcases hx with rfl | rfl | rfl | rfl | rfl | rfl
    · exact inner_append _ (by decide)
    · exact inner_append _ (by decide)
    · exact inner_append _ (by decide)
    · exact setLoraGatewayBandWidth_inner psp.loraGatewayBandWidth
    · exact inner_append _ (by decide)
    · exact inner_append _ (by decide)
  exact .bracket hm fun x hx => absurd hx List.not_mem_nil

/-- One command between the two. -/
theorem single_bracketed {x : Stage} (h : x.inner) (o : Option Nat) : Bracketed o [.enterAtMode, x, .exitAtMode] := by
  have hm : ∀ y ∈ [x], y.inner := fun y hy => by rw [List.mem_singleton.mp hy]; exact h
  exact .bracket hm fun y hy => absurd hy List.not_mem_nil

theorem start_bracketed (d : Driver) (op : Nat) : Bracketed (some op) (start d op).2 := by
  unfold start
  split
  · exact .plain fun x hx => by rw [List.mem_singleton.mp hx]; exact decide_eq_true rfl
  · have ht : ∀ x ∈ [Stage.started], x.outer (some op) := fun x hx => by rw [List.mem_singleton.mp hx]; rfl
    exact .bracket (fun x hx => absurd hx List.not_mem_nil) ht

theorem openNetwork_bracketed {op : Nat} {protocol : Protocol} {host : String} {port : UInt16} {l : List Stage}
    (h : openNetwork op protocol host port = some l) : Bracketed (some op) l := by
  cases protocol with
  | tcp => cases h; exact .plain fun x hx => by rw [List.mem_singleton.mp hx]; exact decide_eq_true rfl
  | udp => cases h; exact .plain fun x hx => by rw [List.mem_singleton.mp hx]; exact decide_eq_true rfl
  | other => cases h

/-- Every pipeline has the shape, and its handler tells the object of its job. -/
theorem pipeline_bracketed {j : Job} {k : Handler} {l : List Stage} (h : pipeline d j = some (k, l)) :
    Bracketed j.op? l ∧ ∀ op, k.op? = some op → j.op? = some op := by
  cases j with
  | init => cases h; exact ⟨init_bracketed _ _, fun op ho => by cases ho⟩
  | poll =>
    cases h
    exact ⟨.plain fun x hx => by rw [List.mem_singleton.mp hx]; rfl, fun op ho => by cases ho⟩
  | readPacket connection => cases h
  | operation op c =>
    cases c with
    | start =>
      have hs : start d op = (k, l) := Option.some.inj h
      have hb := start_bracketed d op
      rw [hs] at hb
      refine ⟨hb, fun op' ho => ?_⟩
      unfold start at hs
      split at hs
      · cases hs; cases ho
      · cases hs; exact ho
    | stop => cases h; exact ⟨single_bracketed (by decide) _, fun _ ho => ho⟩
    | openNetwork protocol host port =>
      obtain ⟨l', hl, he⟩ := Option.map_eq_some_iff.mp h
      cases he
      exact ⟨openNetwork_bracketed hl, fun op' ho => by cases ho⟩
    | setPowerSaveParam psp => cases h; exact ⟨setPowerSaveParam_bracketed psp _, fun _ ho => ho⟩
    | setLoraGatewayAddress address =>
      cases h; exact ⟨single_bracketed (inner_append _ (by decide)) _, fun _ ho => ho⟩
    | setLoraGatewayChannel channel =>
      cases h; exact ⟨single_bracketed (inner_append _ (by decide)) _, fun _ ho => ho⟩
    | setLoraGatewayCRCCheck crcCheck =>
      cases h; exact ⟨single_bracketed (inner_append _ (by decide)) _, fun _ ho => ho⟩
    | setLoraGatewayIQSignalInversion signalInversion =>
      cases h; exact ⟨single_bracketed (inner_append _ (by decide)) _, fun _ ho => ho⟩

section
variable {o : Option Nat} {l pre post ran rest : List Stage} {x : Stage}

theorem inner_not_exit (h : x.inner) : x ≠ .exitAtMode := fun e => by rw [e] at h; cases h

theorem outer_not_exit (h : x.outer o) : x ≠ .exitAtMode := fun e => by rw [e] at h; cases h

theorem outer_not_request (h : x.outer o) (command : String) : x ≠ .request command :=
  fun e => by rw [e] at h; cases h

/-- A command stands behind `enterAtMode` and before `exitAtMode`. -/
theorem Bracketed.inside {command : String} (h : Bracketed o (pre ++ .request command :: post)) :
    .enterAtMode ∈ pre ∧ .exitAtMode ∉ pre := by
  generalize hl : pre ++ .request command :: post = l at h
  cases h with
  | plain h => exact absurd rfl (outer_not_request (h _ (by rw [← hl]; simp)) command)
  | @bracket mids tail hm ht =>
    cases pre with
    | nil => cases hl
    | cons p pre =>
      rw [List.cons_append, List.cons.injEq] at hl
      obtain ⟨rfl, hl⟩ := hl
      refine ⟨List.mem_cons_self, fun hx => ?_⟩
      have hx : .exitAtMode ∈ pre := (List.mem_cons.mp hx).resolve_left (fun e => by cases e)
      rcases List.append_eq_append_iff.mp hl with ⟨mids', rfl, -⟩ | ⟨tail', hp, ht'⟩
      · exact inner_not_exit (hm _ (List.mem_append_left _ hx)) rfl
      · cases tail' with
        | nil => cases ht'
        | cons y tail' =>
          rw [List.cons_append, List.cons.injEq] at ht'
          exact outer_not_request (ht (.request command) (by rw [ht'.2]; simp)) command rfl

/-- The stages of a pipeline. -/
theorem Bracketed.mem (h : Bracketed o l) (hx : x ∈ l) :
    x.inner ∨ x.outer o ∨ x = .enterAtMode ∨ x = .exitAtMode := by
  cases h with
  | plain h => exact Or.inr (Or.inl (h x hx))
  | bracket hm ht =>
    rcases List.mem_cons.mp hx with hx | hx
    · exact Or.inr (Or.inr (Or.inl hx))
    rcases List.mem_append.mp hx with hx | hx
    · exact Or.inl (hm x hx)
    rcases List.mem_cons.mp hx with hx | hx
    · exact Or.inr (Or.inr (Or.inr hx))
    · exact Or.inr (Or.inl (ht x hx))

theorem Bracketed.op? {op : Nat} (h : Bracketed o l) (hx : x ∈ l) (ho : x.op? = some op) : o = some op := by
  have hm := h.mem hx
  cases x with
  | notify op' => cases ho; simpa [Stage.inner, Stage.outer] using hm
  | openTcp op' host port => cases ho; simpa [Stage.inner, Stage.outer] using hm
  | openUdp op' host port => cases ho; simpa [Stage.inner, Stage.outer] using hm
  | _ => cases ho

/-- No command is a "+++". -/
theorem Bracketed.command {command : String} (h : Bracketed o l) (hx : .request command ∈ l) : command ≠ "+++" := by
  have hi : command.toList.head? = some 'A' := by simpa [Stage.inner, Stage.outer] using h.mem hx
  intro e
  rw [e] at hi
  exact absurd hi (by decide)

/-- `exitAtMode` stands in a pipeline once. -/
theorem Bracketed.once (h : Bracketed o (ran ++ rest)) (hr : .exitAtMode ∈ rest) : .exitAtMode ∉ ran := by
  have hcount : (ran ++ rest).count .exitAtMode ≤ 1 := by
    generalize ran ++ rest = l at h
    cases h with
    | plain h =>
      have h₀ : List.count .exitAtMode l = 0 := List.count_eq_zero.mpr fun hx => outer_not_exit (h _ hx) rfl
      omega
    | @bracket mids tail hm ht =>
      have h₁ : mids.count .exitAtMode = 0 := List.count_eq_zero.mpr fun hx => inner_not_exit (hm _ hx) rfl
      have h₂ : tail.count .exitAtMode = 0 := List.count_eq_zero.mpr fun hx => outer_not_exit (ht _ hx) rfl
      rw [List.count_cons_of_ne (by decide), List.count_append, List.count_cons_self]
      omega
  intro hx
  have h₁ := List.count_pos_iff.mpr hx
  have h₂ := List.count_pos_iff.mpr hr
  rw [List.count_append] at hcount
  omega

end

/-! ## The flag between the two -/

/-- Between `enterAtMode` and `exitAtMode` of the head's pipeline the flag is set. -/
structure Shaped (d : Driver) (c : Cur Handler Stage Act) : Prop where
  bracketed : ∃ o, Bracketed o (c.ran ++ c.rest)
  flag : .enterAtMode ∈ c.ran → .exitAtMode ∉ c.ran → d.atMode = true

section
variable {x : Stage} {d' : Driver} {jobs : List Job} {r : Started Act}

theorem Starts.flag (h : Starts d x (d', jobs, r)) (hx : x = .enterAtMode ∨ d.atMode = true) (hne : x ≠ .exitAtMode) :
    d'.atMode = true := by
  cases h with
  | enterAtMode h => rfl
  | entered h => exact h
  | exitAtMode h => exact absurd rfl hne
  | exited h => exact absurd rfl hne
  | _ => exact hx.resolve_left (fun e => by cases e)

end

theorem moves_shaped {e : Option Ended} (h : Moves (machine ae) s e t) (hs : ∀ c, s.cur = some c → Shaped s.d c) :
    ∀ c, t.cur = some c → Shaped t.d c := by
  refine h.head (fun j _ k stages _ _ hp => ?_) (fun c x rest d jobs r act hc _ hr hst _ => ?_) (fun c a hc _ _ => ?_)
  · exact ⟨⟨_, (pipeline_bracketed hp).1⟩, fun hm => absurd hm List.not_mem_nil⟩
  · obtain ⟨o, hb⟩ := (hs c hc).bracketed
    refine ⟨⟨o, ?_⟩, fun hen hex => ?_⟩
    · rw [hr] at hb
      rw [List.append_assoc]
      exact hb
    · have hex := not_or.mp (mt List.mem_append.mpr hex)
      refine (startStage_starts hst).flag ?_ fun e => hex.2 (by rw [e]; exact List.mem_singleton_self _)
      rcases List.mem_append.mp hen with hen | hen
      · exact Or.inr ((hs c hc).flag hen hex.1)
      · exact Or.inl (List.mem_singleton.mp hen).symm
  · refine ⟨(hs c hc).bracketed, fun hen hex => ?_⟩
    exact (actEnded_frame Driver.atMode (fun _ _ _ _ => rfl) _ _ _ _).trans ((hs c hc).flag hen hex)

/-- A call changes the counter of operation objects only. -/
theorem call_frame (d : Driver) (c : Call) :
    (call d c).1.atMode = d.atMode ∧ (call d c).1.moduleAtMode = d.moduleAtMode ∧ (call d c).1.wire = d.wire ∧
      (call d c).1.reports = d.reports ∧ d.operations ≤ (call d c).1.operations := by
  unfold call
  split
  · exact ⟨rfl, rfl, rfl, rfl, Nat.le_refl _⟩
  · exact ⟨rfl, rfl, rfl, rfl, Nat.le_succ _⟩

theorem step_shaped {ev : Ev} (h : step ae s ev = some t) (hs : ∀ c, s.cur = some c → Shaped s.d c) :
    ∀ c, t.cur = some c → Shaped t.d c := by
  cases step_cases h with
  | call c =>
    intro c' hc
    exact ⟨(hs c' hc).bracketed, fun hen hex => (call_frame s.d c).1.trans ((hs c' hc).flag hen hex)⟩
  | run h => exact moves_shaped h hs
  | answer a hr h => exact moves_shaped h hs
  | pushed h => exact hs

/-! ## Operation objects -/

structure Below (n : Nat) (c : Cur Handler Stage Act) : Prop where
  handler : ∀ op, c.handler.op? = some op → op < n
  stages : ∀ x ∈ c.rest, ∀ op, x.op? = some op → op < n
  act : ∀ a op, c.act = some a → a.op? = some op → op < n

structure Named (s : St) : Prop where
  reports : ∀ p ∈ s.d.reports, p.1 < s.d.operations
  queue : ∀ j ∈ s.queue, ∀ op, j.op? = some op → op < s.d.operations
  head : ∀ c, s.cur = some c → Below s.d.operations c

theorem construct_named (i : LoraGatewayInit) : Named (construct i) where
  reports p hp := by cases hp
  queue j hj op ho := by cases List.mem_singleton.mp hj; cases ho
  head c h := by cases h

theorem Below.mono {n m : Nat} {c : Cur Handler Stage Act} (h : Below n c) (hm : n ≤ m) : Below m c where
  handler op ho := Nat.lt_of_lt_of_le (h.handler op ho) hm
  stages x hx op ho := Nat.lt_of_lt_of_le (h.stages x hx op ho) hm
  act a op ha ho := Nat.lt_of_lt_of_le (h.act a op ha ho) hm

theorem report_reports {op : Nat} {r : Report} {p : Nat × Report} (h : p ∈ (report d op r).reports) :
    p ∈ d.reports ∨ some op = some p.1 := by
  rcases List.mem_append.mp h with h | h
  · exact Or.inl h
  · exact Or.inr (by rw [List.mem_singleton.mp h])

theorem closed_reports {k : Handler} {o : Ended} {p : Nat × Report} (h : p ∈ (closed d k o).reports) :
    p ∈ d.reports ∨ k.op? = some p.1 := by
  cases k with
  | operation op => cases o <;> exact report_reports h
  | init => exact Or.inl h
  | nobody => exact Or.inl h

theorem actEnded_reports {k : Handler} {a : Act} {o : Ended} {p : Nat × Report} (h : p ∈ (actEnded d k a o).reports) :
    p ∈ d.reports ∨ a.op? = some p.1 := by
  cases a with
  | request r => exact Or.inl h
  | operation op => exact Or.inl h
  | openNetwork op a =>
    cases o with
    | result => exact report_reports h
    | error => exact report_reports h
    | stop => exact Or.inl h

section
variable {x : Stage} {d' : Driver} {jobs : List Job} {r : Started Act}

theorem Starts.operations (h : Starts d x (d', jobs, r)) : d.operations ≤ d'.operations := by
  cases h <;> first | exact Nat.le_refl _ | exact Nat.le_succ _

theorem Starts.reports (h : Starts d x (d', jobs, r)) {p : Nat × Report} (hp : p ∈ d'.reports) :
    p ∈ d.reports ∨ x.op? = some p.1 := by
  cases h with
  | notify op => exact report_reports hp
  | _ => exact Or.inl hp

theorem Starts.queues (h : Starts d x (d', jobs, r)) {j : Job} {op : Nat} (hj : j ∈ jobs) (ho : j.op? = some op) :
    op < d'.operations := by
  cases h with
  | operation hc =>
    rw [List.mem_singleton.mp hj] at ho
    cases ho
    exact Nat.lt_succ_self _
  | _ => cases hj

theorem Starts.act {a : Act} (h : Starts d x (d', jobs, .wait a)) {op : Nat} (ho : a.op? = some op) :
    x.op? = some op := by
  cases h with
  | openTcp => exact ho
  | openUdp => exact ho
  | _ => cases ho

end

theorem moves_operations {e : Option Ended} (h : Moves (machine ae) s e t) : s.d.operations ≤ t.d.operations := by
  refine h.data (P := fun d => s.d.operations ≤ d.operations) (Nat.le_refl _) (fun c x rest d jobs r _ _ _ hs => ?_)
    (fun c a o _ _ => ?_) (fun c d o _ hd => ?_)
  · exact (startStage_starts hs).operations
  · exact Nat.le_of_eq (actEnded_frame Driver.operations (fun _ _ _ _ => rfl) _ _ _ _).symm
  · exact Nat.le_trans hd (Nat.le_of_eq (closed_frame Driver.operations (fun _ _ _ => rfl) _ _ _).symm)

/-- What is told is told to objects that the head names. -/
theorem moves_reports {e : Option Ended} {n : Nat} (h : Moves (machine ae) s e t)
    (hn : ∀ c, s.cur = some c → Below n c) (hr : ∀ p ∈ s.d.reports, p.1 < n) : ∀ p ∈ t.d.reports, p.1 < n := by
  refine h.data (P := fun d => ∀ p ∈ d.reports, p.1 < n) hr (fun c x rest d jobs r hc _ hrest hs p hp => ?_)
    (fun c a o hc ha p hp => ?_) (fun c d o hc hd p hp => ?_)
  · refine ((startStage_starts hs).reports hp).elim (hr p) ((hn c hc).stages x ?_ p.1)
    rw [hrest]
    exact List.mem_cons_self
  · exact (actEnded_reports hp).elim (hr p) ((hn c hc).act a p.1 ha)
  · exact (closed_reports hp).elim (hd p) ((hn c hc).handler p.1)

/-- The queue behind the head: what was on it and what the head's stage queued. -/
theorem moves_queue {e : Option Ended} (h : Moves (machine ae) s e t) {j : Job} (hj : j ∈ t.queue) :
    j ∈ s.queue ∨ ∀ op, j.op? = some op → op < t.d.operations := by
  have hstart : ∀ {x : Stage} {d' : Driver} {jobs : List Job} {r : Started Act}, startStage s.d x = (d', jobs, r) →
      j ∈ s.queue ++ jobs → j ∈ s.queue ∨ ∀ op, j.op? = some op → op < d'.operations := by
    intro x d' jobs r hs hj
    exact (List.mem_append.mp hj).imp id fun hj op ho => (startStage_starts hs).queues hj ho
  cases h with
  | skip hc hq hp => exact Or.inl (by rw [hq]; exact List.mem_cons_of_mem _ hj)
  | opened hc hq hp => exact Or.inl (by rw [hq]; exact List.mem_cons_of_mem _ hj)
  | finished => exact Or.inl hj
  | waits hc ha hr hs => exact hstart hs hj
  | passed hc ha hr hs hnull => exact hstart hs hj
  | nullFailed hc ha hr hs hnull =>
    show _ ∨ ∀ op, j.op? = some op → op < (closed _ _ _).operations
    rw [closed_frame Driver.operations (fun _ _ _ => rfl)]
    exact hstart hs hj
  | actResult => exact Or.inl hj
  | actFailed => exact Or.inl hj

theorem moves_named {e : Option Ended} (h : Moves (machine ae) s e t) (hn : Named s) : Named t where
  reports p hp := Nat.lt_of_lt_of_le (moves_reports h hn.head hn.reports p hp) (moves_operations h)
  queue j hj op ho :=
    (moves_queue h hj).elim (fun hj => Nat.lt_of_lt_of_le (hn.queue j hj op ho) (moves_operations h)) (· op ho)
  head := by
    refine h.head (P := fun d c => Below d.operations c) (fun j queue k stages _ hq hp => ?_)
      (fun c x rest d jobs r act hc _ hr hs ha => ?_) (fun c a hc ha _ => ?_)
    · obtain ⟨hb, hk⟩ := pipeline_bracketed hp
      have hj : j ∈ s.queue := by rw [hq]; exact List.mem_cons_self
      exact ⟨fun op ho => hn.queue j hj op (hk op ho), fun x hx op ho => hn.queue j hj op (hb.op? hx ho),
        fun a op ha => by cases ha⟩
    · have hst := startStage_starts hs
      have hb := (hn.head c hc).mono hst.operations
      have hx : x ∈ c.rest := by rw [hr]; exact List.mem_cons_self
      refine ⟨hb.handler, fun y hy => hb.stages y (by rw [hr]; exact List.mem_cons_of_mem _ hy), fun a op h ho => ?_⟩
      cases ha a h
      exact hb.stages x hx op (hst.act ho)
    · rw [machine_ended, actEnded_frame Driver.operations (fun _ _ _ _ => rfl)]
      exact ⟨(hn.head c hc).handler, (hn.head c hc).stages, fun a op ha => by cases ha⟩

theorem call_jobs {c : Call} {j : Job} {op : Nat} (hj : j ∈ (call d c).2.1) (ho : j.op? = some op) :
    op < (call d c).1.operations := by
  unfold call at hj ⊢
  split at hj
  · cases hj
  · rw [List.mem_singleton.mp hj] at ho
    cases ho
    rw [if_neg ‹_›]
    exact Nat.lt_succ_self _

theorem step_named {ev : Ev} (h : step ae s ev = some t) (hn : Named s) : Named t := by
  cases step_cases h with
  | call c =>
    obtain ⟨-, -, -, hr, ho⟩ := call_frame s.d c
    refine ⟨fun p hp => ?_, fun j hj op hop => ?_, fun c' hc => (hn.head c' hc).mono ho⟩
    · exact Nat.lt_of_lt_of_le (hn.reports p (by rw [← hr]; exact hp)) ho
    · rcases List.mem_append.mp hj with hj | hj
      · exact Nat.lt_of_lt_of_le (hn.queue j hj op hop) ho
      · exact call_jobs hj hop
  | run h => exact moves_named h hn
  | answer a hr h => exact moves_named h hn
  | pushed hp =>
    refine ⟨hn.reports, fun j hj op hop => ?_, hn.head⟩
    rcases List.mem_append.mp hj with hj | hj
    · exact hn.queue j hj op hop
    · rw [hp j hj] at hop; cases hop

end AetherGateway.Lora
