/-
  AetherGateway.Lora.Commands — the AT commands of the driver, read back (see
  `AetherGateway.Lora.Settings`).

  A setting is what one command sets, with its value.
  - `read_command`: the text of a command gives back the setting: `hex`, `AdressToString`
    and the numbers lose nothing and no two commands run into each other
    (`AT+CR1`, `AT+CRC1`).
  - `commands_requested`: in every run each command on the serial port is a "+++", a probe,
    a reset or sets one setting, of the driver's serial port or of a call.
-/

import AetherGateway.Lora.Transcript

namespace AetherGateway.Lora

open AetherGateway.SerialQueue AetherGateway.Runs

/-! ## Settings -/

inductive Setting where
  | mode (mode : LoraGatewayMode)
  | level (level : LoraGatewayLevel)
  | power (power : LoraGatewayPower)
  | bandWidth (bandWidth : LoraGatewayBandWidth)
  | codingRate (codingRate : LoraGatewayCodingRate)
  | spreadingFactor (spreadingFactor : LoraGatewaySpreadingFactor)
  | address (address : UInt16)
  | channel (channel : UInt8)
  | crcCheck (crcCheck : LoraGatewayCRCCheck)
  | signalInversion (signalInversion : LoraGatewayIQSignalInversion)
  | baudRate (baudRate : BaudRate)
  | parity (parity : Parity)
  | stopBits (stopBits : StopBits)
  deriving DecidableEq, Repr

def Setting.stage : Setting → Stage
  | .mode m => setLoraGatewayMode m
  | .level l => setLoraGatewayLevel l
  | .power p => setLoraGatewayPower p
  | .bandWidth b => setLoraGatewayBandWidth b
  | .codingRate cr => setLoraGatewayCodingRate cr
  | .spreadingFactor sf => setLoraGatewaySpreadingFactor sf
  | .address a => .request ("AT+MAC" ++ adressToString a)
  | .channel c => .request ("AT+CHANNEL" ++ channelToString c)
  | .crcCheck crc => .request ("AT+CRC" ++ toString crc.value)
  | .signalInversion iq => .request ("AT+IQ" ++ toString iq.value)
  | .baudRate b => setBaudRate b
  | .parity p => setParity p
  | .stopBits s => setStopBits s

def Setting.command (x : Setting) : Option String :=
  match x.stage with
  | .request command => some command
  | _ => none

/-! ## Reading a command -/

def hexValue (c : Char) : Nat := if c.toNat < 58 then c.toNat - 48 else c.toNat - 87

def readHex (a b : Char) : UInt8 := UInt8.ofNat (16 * hexValue a + hexValue b)

def readNumber (digits : List Char) : Nat := digits.foldl (fun n c => 10 * n + (c.toNat - 48)) 0

def Setting.read : List Char → Option Setting
  | ['A', 'T', '+', 'M', 'A', 'C', a, b, ',', c, d] =>
    some (.address (UInt16.ofNat (256 * (readHex a b).toNat + (readHex c d).toNat)))
  | ['A', 'T', '+', 'C', 'H', 'A', 'N', 'N', 'E', 'L', a, b] => some (.channel (readHex a b))
  | 'A' :: 'T' :: '+' :: 'M' :: 'O' :: 'D' :: 'E' :: v =>
    [.transparentTransmission, .fixedPointTransmission, .broadcastTransmission][readNumber v]?.map .mode
  | 'A' :: 'T' :: '+' :: 'L' :: 'E' :: 'V' :: 'E' :: 'L' :: v =>
    if h : readNumber v < 8 then some (.level ⟨readNumber v, h⟩) else none
  | 'A' :: 'T' :: '+' :: 'P' :: 'O' :: 'W' :: 'E' :: v =>
    if h : readNumber v < 23 then some (.power ⟨readNumber v, h⟩) else none
  | ['A', 'T', '+', 'B', 'W', '0'] => some (.bandWidth .bandWidth125K)
  | 'A' :: 'T' :: '+' :: 'C' :: 'R' :: 'C' :: v =>
    [LoraGatewayCRCCheck.crcOff, .crcOn][readNumber v]?.map .crcCheck
  | 'A' :: 'T' :: '+' :: 'C' :: 'R' :: v => [.cr4_5, .cr4_6, .cr4_7, .cr4_8][readNumber v - 1]?.map .codingRate
  | 'A' :: 'T' :: '+' :: 'S' :: 'F' :: v =>
    [.sf5, .sf6, .sf7, .sf8, .sf9, .sf10, .sf11, .sf12][readNumber v - 5]?.map .spreadingFactor
  | 'A' :: 'T' :: '+' :: 'I' :: 'Q' :: v =>
    [LoraGatewayIQSignalInversion.iqOff, .iqOn][readNumber v]?.map .signalInversion
  | 'A' :: 'T' :: '+' :: 'B' :: 'A' :: 'U' :: 'D' :: v =>
    [.baudRate1200, .baudRate2400, .baudRate4800, .baudRate9600, .baudRate19200, .baudRate38400, .baudRate57600,
      .baudRate115200, .baudRate128000][readNumber v - 1]?.map .baudRate
  | 'A' :: 'T' :: '+' :: 'P' :: 'A' :: 'R' :: 'I' :: v => [.noParity, .oddParity, .evenParity][readNumber v]?.map .parity
  | 'A' :: 'T' :: '+' :: 'S' :: 'T' :: 'O' :: 'P' :: v => [.oneStopBit, .twoStopBit][readNumber v - 1]?.map .stopBits
  | _ => none

theorem hexValue_hexDigit : ∀ n < 16, hexValue (hexDigit n) = n := by decide

theorem readHex_hex (value : UInt8) : readHex (hexDigit (value.toNat / 16)) (hexDigit (value.toNat % 16)) = value := by
  have hlt := value.toNat_lt
  have hhigh : hexValue (hexDigit (value.toNat / 16)) = value.toNat / 16 := hexValue_hexDigit _ (by omega)
  have hlow : hexValue (hexDigit (value.toNat % 16)) = value.toNat % 16 := hexValue_hexDigit _ (by omega)
  rw [readHex, hhigh, hlow, Nat.div_add_mod]
  exact UInt8.ofNat_toNat

/-- An address is its two bytes, the high one first. -/
theorem adress_bytes (value : UInt16) :
    UInt16.ofNat (256 * (value >>> 8).toUInt8.toNat + (value &&& 0xFF).toUInt8.toNat) = value := by
  have hlt := value.toNat_lt
  have hhigh : (value >>> 8).toUInt8.toNat = value.toNat / 256 := by
    rw [UInt16.toNat_toUInt8, UInt16.toNat_shiftRight]
    show value.toNat >>> 8 % 256 = value.toNat / 256
    rw [Nat.shiftRight_eq_div_pow]
    omega
  have hlow : (value &&& 0xFF).toUInt8.toNat = value.toNat % 256 := by
    rw [UInt16.toNat_toUInt8, UInt16.toNat_and]
    show (value.toNat &&& 255) % 256 = value.toNat % 256
    rw [Nat.and_two_pow_sub_one_eq_mod _ 8, Nat.mod_mod]
  rw [hhigh, hlow, Nat.div_add_mod]
  exact UInt16.ofNat_toNat

/-- The text of a command gives back the setting. -/
theorem read_command {x : Setting} {command : String} (h : x.command = some command) :
    Setting.read command.toList = some x := by
  cases x with
  | mode m => cases m <;> cases h <;> rfl
  | level l =>
    have all : ∀ l : Fin 8, Setting.read ("AT+LEVEL" ++ toString l.val).toList = some (.level l) := by decide
    cases h
    exact all l
  | power p =>
    have all : ∀ p : Fin 23, Setting.read ("AT+POWE" ++ toString p.val).toList = some (.power p) := by decide
    cases h
    exact all p
  | bandWidth b => cases b <;> cases h; rfl
  | codingRate cr => cases cr <;> cases h <;> rfl
  | spreadingFactor sf => cases sf <;> cases h <;> rfl
  | address a =>
    cases h
    have htext : ("AT+MAC" ++ adressToString a).toList = ['A', 'T', '+', 'M', 'A', 'C'] ++
        ((hex (a >>> 8).toUInt8).toList ++ [','] ++ (hex (a &&& 0xFF).toUInt8).toList) := by
      simp only [adressToString, String.toList_append]
      rfl
    simp only [htext, hex, String.toList_ofList]
    show some (Setting.address _) = _
    rw [readHex_hex, readHex_hex, adress_bytes]
  | channel c =>
    cases h
    have htext : ("AT+CHANNEL" ++ channelToString c).toList =
        ['A', 'T', '+', 'C', 'H', 'A', 'N', 'N', 'E', 'L'] ++ (hex c).toList := by
      simp only [channelToString, String.toList_append]
      rfl
    simp only [htext, hex, String.toList_ofList]
    show some (Setting.channel _) = _
    rw [readHex_hex]
  | crcCheck crc => cases crc <;> cases h <;> rfl
  | signalInversion iq => cases iq <;> cases h <;> rfl
  | baudRate b => cases b <;> cases h <;> rfl
  | parity p => cases p <;> cases h <;> rfl
  | stopBits s => cases s <;> cases h <;> rfl

/-- No two settings share a command. -/
theorem command_injective {x y : Setting} {command : String} (hx : x.command = some command)
    (hy : y.command = some command) : x = y :=
  Option.some.inj ((read_command hx).symm.trans (read_command hy))

/-! ## Who asked for a command -/

variable {ae : Aether} {s t : St} {d : Driver} {i : LoraGatewayInit} {command : String}

def Call.settings : Call → List Setting
  | .setPowerSaveParam psp => [.mode psp.loraGatewayMode, .level psp.loraGatewayLevel, .power psp.loraGatewayPower,
      .bandWidth psp.loraGatewayBandWidth, .codingRate psp.loraGatewayCodingRate,
      .spreadingFactor psp.loraGatewaySpreadingFactor]
  | .setLoraGatewayAddress a => [.address a]
  | .setLoraGatewayChannel c => [.channel c]
  | .setLoraGatewayCRCCheck crc => [.crcCheck crc]
  | .setLoraGatewayIQSignalInversion iq => [.signalInversion iq]
  | _ => []

def LoraGatewayInit.settings (i : LoraGatewayInit) : List Setting :=
  [.baudRate i.serialInit.baudRate, .parity i.serialInit.parity, .stopBits i.serialInit.stopBits]

/-- The command sets nothing, or sets exactly one setting, of the serial port or of a call. -/
def Asked (i : LoraGatewayInit) (calls : List Call) (command : String) : Prop :=
  command ∈ ["+++", "AT", "AT+RESET"] ∨
    ∃ x : Setting, x.command = some command ∧ (∀ y : Setting, y.command = some command → y = x) ∧
      (x ∈ i.settings ∨ ∃ c ∈ calls, x ∈ c.settings)

theorem Asked.mono {calls calls' : List Call} (h : Asked i calls command) (hc : ∀ c ∈ calls, c ∈ calls') :
    Asked i calls' command :=
  h.imp_right fun ⟨x, hx, hu, ha⟩ => ⟨x, hx, hu, ha.imp_right fun ⟨c, hm, hs⟩ => ⟨c, hc c hm, hs⟩⟩

theorem asked_setting {x : Setting} {calls : List Call} (hx : x.stage = .request command)
    (ha : x ∈ i.settings ∨ ∃ c ∈ calls, x ∈ c.settings) : Asked i calls command := by
  have hc : x.command = some command := by rw [Setting.command, hx]
  exact Or.inr ⟨x, hc, fun y hy => command_injective hy hc, ha⟩

/-- The commands of a pipeline are asked for. -/
theorem pipeline_asked {j : Job} {k : Handler} {l : List Stage} {calls : List Call} (hp : pipeline d j = some (k, l))
    (hd : d.loraGatewayInit = i) (hpolls : j.polls = false) (hj : ∀ op c, j = .operation op c → c ∈ calls)
    (hm : .request command ∈ l) : Asked i calls command := by
  -- a command among the stages of settings that are asked for
  have among : ∀ {xs : List Setting}, (∀ x ∈ xs, x ∈ i.settings ∨ ∃ c ∈ calls, x ∈ c.settings) →
      .request command ∈ xs.map Setting.stage → Asked i calls command := by
    intro xs hxs hm
    obtain ⟨x, hx, hs⟩ := List.mem_map.mp hm
    exact asked_setting hs (hxs x hx)
  -- between `EnterAtMode` and `ExitAtMode`
  have bracketed : ∀ {mids : List Stage}, .request command ∈ Stage.enterAtMode :: (mids ++ [.exitAtMode]) →
      .request command ∈ mids := by
    intro mids hm
    simpa using hm
  have single : ∀ {x : Stage}, .request command ∈ [Stage.enterAtMode, x, .exitAtMode] → .request command ∈ [x] := by
    intro x hm
    simpa using hm
  cases j with
  | poll => cases hpolls
  | readPacket => cases hp
  | init =>
    cases hp
    rw [hd] at hm
    have hm : command = "AT" ∨ .request command ∈ i.settings.map Setting.stage := by
      simpa [init, setupLoraNet, setupSerialPort, LoraGatewayInit.settings, Setting.stage] using hm
    rcases hm with rfl | hm
    · exact Or.inl (by simp)
    · exact among (fun x hx => Or.inl hx) hm
  | operation op c =>
    have called : ∀ x ∈ c.settings, x ∈ i.settings ∨ ∃ c ∈ calls, x ∈ c.settings := fun x hx =>
      Or.inr ⟨c, hj op c rfl, hx⟩
    cases c with
    | start =>
      simp only [pipeline, callPipeline, start, Option.some.injEq] at hp
      split at hp <;> cases hp <;> simp at hm
    | stop =>
      cases hp
      have hreset := single hm
      rw [Stage.request.inj (List.mem_singleton.mp hreset)]
      exact Or.inl (by simp)
    | openNetwork protocol host port => cases protocol <;> cases hp <;> simp at hm
    | setPowerSaveParam psp => cases hp; exact among called (bracketed hm)
    | setLoraGatewayAddress a => cases hp; exact among called (single hm)
    | setLoraGatewayChannel c => cases hp; exact among called (single hm)
    | setLoraGatewayCRCCheck crc => cases hp; exact among called (single hm)
    | setLoraGatewayIQSignalInversion iq => cases hp; exact among called (single hm)

/-! ## Every run -/

structure AskedFor (i : LoraGatewayInit) (h : Logged) : Prop where
  quietable : Quietable h
  config : h.s.d.loraGatewayInit = i
  head : ∀ k, h.s.cur = some k → ∀ command, .request command ∈ k.rest → Asked i h.calls command
  wire : ∀ w ∈ h.s.d.wire, Asked i h.calls w.request.command

theorem construct_askedFor (i : LoraGatewayInit) : AskedFor i (.construct i) where
  quietable := construct_quietable i
  config := rfl
  head k hk := by cases hk
  wire w hw := by cases hw

theorem Starts.config {x : Stage} {d' : Driver} {jobs : List Job} {r : Started Act} (h : Starts d x (d', jobs, r)) :
    d'.loraGatewayInit = d.loraGatewayInit := by
  cases h <;> rfl

/-- A stage writes a "+++" or its command. -/
theorem Starts.wrote {x : Stage} {d' : Driver} {jobs : List Job} {r : Started Act} {w : Written}
    (h : Starts d x (d', jobs, r)) (hx : x.polls = false) (hw : w ∈ d'.wire) :
    w ∈ d.wire ∨ w.request.command = "+++" ∨ x = .request w.request.command := by
  cases h with
  | enterAtMode | exitAtMode =>
    refine (List.mem_append.mp hw).imp id fun hw => Or.inl ?_
    rw [List.mem_singleton.mp hw]
  | request command =>
    refine (List.mem_append.mp hw).imp id fun hw => Or.inr ?_
    rw [List.mem_singleton.mp hw]
  | poll => cases hx
  | _ => exact Or.inl hw

section
variable {h h' : Logged} {ev : Ev}

theorem AskedFor.moves {e : Option Ended} (hh : AskedFor i h) (hm : Moves (machine ae) h.s e t) :
    t.d.loraGatewayInit = i ∧ (∀ w ∈ t.d.wire, Asked i h.calls w.request.command) ∧
      ∀ k, t.cur = some k → ∀ command, .request command ∈ k.rest → Asked i h.calls command := by
  have hdata := hm.data
    (P := fun d => d.loraGatewayInit = i ∧ ∀ w ∈ d.wire, Asked i h.calls w.request.command) ⟨hh.config, hh.wire⟩
    (fun c x rest d jobs r hc _ hr hst => by
      have hmem : x ∈ c.rest := by rw [hr]; exact List.mem_cons_self
      refine ⟨(startStage_starts hst).config.trans hh.config, fun w hw => ?_⟩
      rcases (startStage_starts hst).wrote (hh.quietable.unpolled.head c hc x hmem) hw with hw | hw | rfl
      · exact hh.wire w hw
      · exact Or.inl (by rw [hw]; exact List.mem_cons_self)
      · exact hh.head c hc _ hmem)
    (fun c a o _ _ => by
      rw [machine_ended, actEnded_frame Driver.loraGatewayInit (fun _ _ _ _ => rfl),
        actEnded_frame Driver.wire (fun _ _ _ _ => rfl)]
      exact ⟨hh.config, hh.wire⟩)
    (fun c d o _ hd => by
      rw [machine_closed, closed_frame Driver.loraGatewayInit (fun _ _ _ => rfl),
        closed_frame Driver.wire (fun _ _ _ => rfl)]
      exact hd)
  refine ⟨hdata.1, hdata.2, ?_⟩
  refine hm.head (P := fun _ k => ∀ command, .request command ∈ k.rest → Asked i h.calls command)
    (fun j queue k stages _ hq hp command hc => ?_) (fun c x rest d jobs r act hc _ hr _ _ command hx => ?_)
    (fun c a hc _ _ => hh.head c hc)
  · have hj : j ∈ h.s.queue := by rw [hq]; exact List.mem_cons_self
    refine pipeline_asked hp hh.config (hh.quietable.unpolled.queue j hj) (fun op c he => ?_) hc
    exact List.mem_of_getElem? (hh.quietable.sound.queue op c (by rw [← he]; exact hj))
  · exact hh.head c hc command (by rw [hr]; exact List.mem_cons_of_mem _ hx)

theorem AskedFor.step (hh : AskedFor i h) (hs : h.step ae ev = some h') : AskedFor i h' := by
  obtain ⟨ht, hcalls, -⟩ := Logged.step_some hs
  have hmono : ∀ {command : String}, Asked i h.calls command → Asked i h'.calls command := fun ha =>
    ha.mono fun c hc => by rw [hcalls]; exact List.mem_append_left _ hc
  have hq := step_quietable hh.quietable hs
  rcases step_split ht with ⟨e, hm, -⟩ | hb
  · obtain ⟨hconfig, hwire, hhead⟩ := hh.moves hm
    exact ⟨hq, hconfig, fun k hk command hc => hmono (hhead k hk command hc), fun w hw => hmono (hwire w hw)⟩
  · refine ⟨hq, ?_, fun k hk command hc => hmono (hh.head k (by rw [← hb.cur]; exact hk) command hc), fun w hw => ?_⟩
    · rw [hb.d]; exact hh.config
    · rw [hb.d] at hw; exact hmono (hh.wire w hw)

end

/-- In every run each command on the serial port sets nothing or sets exactly one setting,
    which the driver was constructed with or a call names. -/
theorem commands_requested (ae : Aether) (i : LoraGatewayInit) (es : List Ev) :
    Always (Logged.step ae) (fun h => ∀ w ∈ h.s.d.wire, Asked i h.calls w.request.command) (.construct i) es :=
  always_of_invariant (fun _ hh => hh.wire) (fun _ _ _ hh hs => AskedFor.step hh hs) (construct_askedFor i)

end AetherGateway.Lora
