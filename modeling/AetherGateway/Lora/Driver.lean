/-
  AetherGateway.Lora.Driver — `DxSmartLr02LoraGateway` (dx_smart_lr02_gw.cpp), the driver
  of the LR02 LoRa module.

  Every public operation hands out an operation object and queues a stage; the serial
  queue makes each stage's pipeline when its turn comes (`AetherGateway.SerialQueue`).
  Pipelines that are made inside a pipeline and have no subscriber of their own are
  spliced into it. A stage may itself call a public operation (`operation`): it queues
  that operation and waits for its object.

  The module starts in transparent mode; an acknowledged "+++" switches its mode and
  nothing else does. An AT request is outstanding from the start of its stage until its
  answer (`answer`): the expected one, an error or a timeout. At most one is outstanding.

  `Aether` holds what parts of aether do that the driver relies on: whether a stage that
  gives a null action is passed over or fails its pipeline, and `FromChars`. `moduleAtMode`
  is the module's; `wire`, `answers`, `reports` and `ended` are history.

  Left out: `CloseNetwork`, `WritePacket` and `PowerOff`, which return null and do nothing,
  and the destructor, whose `Stop` goes to a queue that is destroyed with it.
-/

import AetherGateway.SerialQueue
import AetherGateway.Lora.Settings

namespace AetherGateway.Lora

open AetherGateway.SerialQueue

/-- What the driver relies on in aether. -/
structure Aether where
  nullPasses : Bool
  fromChars : String → Option UInt32

inductive Protocol where
  | tcp
  | udp
  | other
  deriving DecidableEq, Repr

inductive Call where
  | start
  | stop
  | openNetwork (protocol : Protocol) (host : String) (port : UInt16)
  | setPowerSaveParam (psp : LoraGatewayPowerSaveParam)
  | setLoraGatewayAddress (address : UInt16)
  | setLoraGatewayChannel (channel : UInt8)
  | setLoraGatewayCRCCheck (crcCheck : LoraGatewayCRCCheck)
  | setLoraGatewayIQSignalInversion (signalInversion : LoraGatewayIQSignalInversion)
  deriving DecidableEq, Repr

/-- `DxSmartLr02TcpOpenNetwork` and `DxSmartLr02UdpOpenNetwork`. -/
structure OpenNetworkAction where
  host : String
  port : UInt16
  connectionIndex : Int8
  success : Bool
  error : Bool
  stop : Bool
  deriving DecidableEq, Repr

def OpenNetworkAction.make (host : String) (port : UInt16) : OpenNetworkAction := ⟨host, port, -1, false, false, false⟩

def OpenNetworkAction.update (a : OpenNetworkAction) : Option Ended :=
  if a.success then some .result
  else if a.error then some .error
  else if a.stop then some .stop
  else none

/-! ## State -/

inductive Job where
  | init
  | operation (op : Nat) (c : Call)
  | poll
  | readPacket (connection : Int8)
  deriving DecidableEq, Repr

/-- A stage of a pipeline. `null` is a helper that returns a null action. -/
inductive Stage where
  | enterAtMode
  | exitAtMode
  | request (command : String)
  | null
  | operation (c : Call)
  | openTcp (op : Nat) (host : String) (port : UInt16)
  | openUdp (op : Nat) (host : String) (port : UInt16)
  | poll
  | notify (op : Nat)
  | started
  | initiated
  deriving DecidableEq, Repr

/-- Who is told the end of a pipeline: `Init`'s log, an operation object, nobody. -/
inductive Handler where
  | init
  | operation (op : Nat)
  | nobody
  deriving DecidableEq, Repr

inductive Act where
  | request (r : AtRequest)
  | operation (op : Nat)
  | openNetwork (op : Nat) (a : OpenNetworkAction)
  deriving DecidableEq, Repr

inductive Report where
  | notify
  | failed
  | stop
  | setValue (connectionIndex : Int8)
  | reject
  deriving DecidableEq, Repr

/-- A command on the serial port, with the mode the module was in. -/
structure Written where
  request : AtRequest
  moduleAtMode : Bool
  deriving DecidableEq, Repr

structure Driver where
  loraGatewayInit : LoraGatewayInit
  connections : List Int8
  initiated : Bool
  started : Bool
  atMode : Bool
  /-- How often the poll task and its listener were set up. -/
  polls : Nat
  /-- The operation objects handed out so far. -/
  operations : Nat
  moduleAtMode : Bool
  wire : List Written
  answers : List (Handler × AtRequest × Ended)
  reports : List (Nat × Report)
  ended : List (Handler × Ended)

abbrev St := SerialQueue.St Driver Job Handler Stage Act

/-! ## Stages -/

def makeRequest (d : Driver) (r : AtRequest) : Driver × List Job × Started Act :=
  ({ d with wire := d.wire ++ [⟨r, d.moduleAtMode⟩] }, [], .wait (.request r))

def enterAtMode (d : Driver) : Driver × List Job × Started Act :=
  if d.atMode = false then makeRequest { d with atMode := true } ⟨"+++", [waitEntryAt]⟩
  else (d, [], .null)

def exitAtMode (d : Driver) : Driver × List Job × Started Act :=
  if d.atMode = true then makeRequest { d with atMode := false } ⟨"+++", [waitExitAt, waitPowerOn]⟩
  else (d, [], .null)

def Call.refused : Call → Bool
  | .setLoraGatewayChannel channel => 0x1E < channel
  | _ => false

/-- A public call: the operation object, and its stage on the queue. -/
def call (d : Driver) (c : Call) : Driver × List Job × Option Nat :=
  if c.refused then (d, [], none)
  else ({ d with operations := d.operations + 1 }, [.operation d.operations c], some d.operations)

def setupPoll (d : Driver) : Driver := { d with polls := d.polls + 1 }

def report (d : Driver) (op : Nat) (r : Report) : Driver := { d with reports := d.reports ++ [(op, r)] }

def handles (d : Driver) : String := d.connections.foldl (fun h ci => h ++ "," ++ toString ci.toInt) ""

def startStage (d : Driver) : Stage → Driver × List Job × Started Act
  | .enterAtMode => enterAtMode d
  | .exitAtMode => exitAtMode d
  | .request command => makeRequest d ⟨command, [waitOk]⟩
  | .null => (d, [], .null)
  | .operation c =>
    match call d c with
    | (d, jobs, none) => (d, jobs, .null)
    | (d, jobs, some op) => (d, jobs, .wait (.operation op))
  | .openTcp op host port => (d, [], .wait (.openNetwork op (.make host port)))
  | .openUdp op host port => (d, [], .wait (.openNetwork op (.make host port)))
  | .poll => makeRequest d ⟨"#XPOLL=0" ++ handles d, [waitOk]⟩
  | .notify op => (report d op .notify, [], .done)
  | .started => (setupPoll { d with started := true }, [], .done)
  | .initiated => ({ d with initiated := true }, [], .done)

/-! ## Pipelines -/

/-- The stage for a command that may be missing. -/
def requestOrNull (command : Option String) : Stage := command.elim .null .request

def setLoraGatewayMode (mode : LoraGatewayMode) : Stage := .request ("AT+MODE" ++ toString mode.value)

def setLoraGatewayLevel (level : LoraGatewayLevel) : Stage := .request ("AT+LEVEL" ++ toString level.val)

def setLoraGatewayPower (power : LoraGatewayPower) : Stage := .request ("AT+POWE" ++ toString power.val)

def setLoraGatewayBandWidth (bandWidth : LoraGatewayBandWidth) : Stage :=
  if bandWidth ≠ .bandWidth125K then .null else .request ("AT+BW" ++ toString 0)

def setLoraGatewayCodingRate (codingRate : LoraGatewayCodingRate) : Stage :=
  .request ("AT+CR" ++ toString codingRate.value)

def setLoraGatewaySpreadingFactor (spreadingFactor : LoraGatewaySpreadingFactor) : Stage :=
  .request ("AT+SF" ++ toString spreadingFactor.value)

def setBaudRate (baudRate : BaudRate) : Stage := requestOrNull (baudRateCommandsLr02 baudRate)

def setParity (parity : Parity) : Stage := requestOrNull (parityCommand parity)

def setStopBits (stopBits : StopBits) : Stage := requestOrNull (stopBitsCommand stopBits)

def setupSerialPort (i : SerialInit) : List Stage := [setBaudRate i.baudRate, setParity i.parity, setStopBits i.stopBits]

def setupLoraNet (i : LoraGatewayInit) : List Stage :=
  [.operation (.setLoraGatewayAddress i.loraGatewayMyAdress), .operation (.setLoraGatewayChannel i.loraGatewayChannel),
    .operation (.setLoraGatewayCRCCheck i.loraGatewayCrcCheck),
    .operation (.setLoraGatewayIQSignalInversion i.loraGatewaySignalInversion)]

def init (i : LoraGatewayInit) : List Stage :=
  [.enterAtMode, .request "AT"] ++ setupSerialPort i.serialInit ++ [.operation (.setPowerSaveParam i.psp)] ++
    setupLoraNet i ++ [.exitAtMode, .initiated]

def start (d : Driver) (op : Nat) : Handler × List Stage :=
  if d.started then (.nobody, [.notify op])
  else (.operation op, [.enterAtMode, .exitAtMode, .started])

def stop : List Stage := [.enterAtMode, .request "AT+RESET", .exitAtMode]

def openNetwork (op : Nat) (protocol : Protocol) (host : String) (port : UInt16) : Option (List Stage) :=
  match protocol with
  | .tcp => some [.openTcp op host port]
  | .udp => some [.openUdp op host port]
  | .other => none

def setPowerSaveParam (psp : LoraGatewayPowerSaveParam) : List Stage :=
  [.enterAtMode, setLoraGatewayMode psp.loraGatewayMode, setLoraGatewayLevel psp.loraGatewayLevel,
    setLoraGatewayPower psp.loraGatewayPower, setLoraGatewayBandWidth psp.loraGatewayBandWidth,
    setLoraGatewayCodingRate psp.loraGatewayCodingRate,
    setLoraGatewaySpreadingFactor psp.loraGatewaySpreadingFactor, .exitAtMode]

def setLoraGatewayAddress (address : UInt16) : List Stage :=
  [.enterAtMode, .request ("AT+MAC" ++ adressToString address), .exitAtMode]

def setLoraGatewayChannel (channel : UInt8) : List Stage :=
  [.enterAtMode, .request ("AT+CHANNEL" ++ channelToString channel), .exitAtMode]

def setLoraGatewayCRCCheck (crcCheck : LoraGatewayCRCCheck) : List Stage :=
  [.enterAtMode, .request ("AT+CRC" ++ toString crcCheck.value), .exitAtMode]

def setLoraGatewayIQSignalInversion (signalInversion : LoraGatewayIQSignalInversion) : List Stage :=
  [.enterAtMode, .request ("AT+IQ" ++ toString signalInversion.value), .exitAtMode]

def callPipeline (d : Driver) (op : Nat) : Call → Option (Handler × List Stage)
  | .start => some (start d op)
  | .stop => some (.operation op, stop)
  | .openNetwork protocol host port => (openNetwork op protocol host port).map (.nobody, ·)
  | .setPowerSaveParam psp => some (.operation op, setPowerSaveParam psp)
  | .setLoraGatewayAddress address => some (.operation op, setLoraGatewayAddress address)
  | .setLoraGatewayChannel channel => some (.operation op, setLoraGatewayChannel channel)
  | .setLoraGatewayCRCCheck crcCheck => some (.operation op, setLoraGatewayCRCCheck crcCheck)
  | .setLoraGatewayIQSignalInversion signalInversion =>
    some (.operation op, setLoraGatewayIQSignalInversion signalInversion)

/-- The pipeline of a queued stage; `ReadPacket` returns null. -/
def pipeline (d : Driver) : Job → Option (Handler × List Stage)
  | .init => some (.init, init d.loraGatewayInit)
  | .operation op c => callPipeline d op c
  | .poll => some (.nobody, [.poll])
  | .readPacket _ => none

/-! ## Ends -/

def operationEnd (d : Driver) (op : Nat) : Option Ended :=
  (d.reports.find? (·.1 == op)).bind fun p =>
    match p.2 with
    | .notify => some .result
    | .failed => some .error
    | .stop => some .stop
    | _ => none

def ready (d : Driver) : Act → Option Ended
  | .request _ => none
  | .operation op => operationEnd d op
  | .openNetwork _ a => a.update

/-- An action ends; an acknowledged "+++" switches the module's mode. -/
def actEnded (d : Driver) (k : Handler) : Act → Ended → Driver
  | .request r, o =>
    { d with
      moduleAtMode := if o = .result ∧ r.command = "+++" then !d.moduleAtMode else d.moduleAtMode
      answers := d.answers ++ [(k, r, o)] }
  | .operation _, _ => d
  | .openNetwork op a, .result => report d op (.setValue a.connectionIndex)
  | .openNetwork op _, .error => report d op .reject
  | .openNetwork _ _, .stop => d

def closed (d : Driver) (k : Handler) (o : Ended) : Driver :=
  let d := { d with ended := d.ended ++ [(k, o)] }
  match k, o with
  | .operation op, .result => report d op .notify
  | .operation op, .error => report d op .failed
  | .operation op, .stop => report d op .stop
  | _, _ => d

/-! ## Steps -/

section
variable (ae : Aether)

def machine : Machine Driver Job Handler Stage Act where
  nullPasses := ae.nullPasses
  pipeline := pipeline
  start d _ x := startStage d x
  ready := ready
  ended := actEnded
  closed := closed

def construct (i : LoraGatewayInit) : St :=
  ⟨⟨i, [], false, false, false, 0, 0, false, [], [], [], []⟩, [.init], none⟩

def kPollIn : UInt32 := 0x01

def pollEvent (s : St) (handle : Int32) (flags : String) : St :=
  match ae.fromChars flags with
  | none => s
  | some flagsVal =>
    match s.d.connections.find? (· == handle.toInt8) with
    | none => s
    | some connection => if flagsVal ||| kPollIn ≠ 0 then push s [.readPacket connection] else s

inductive Answer where
  | expected
  | error
  | timeout
  deriving DecidableEq, Repr

def Answer.ended : Answer → Ended
  | .expected => .result
  | .error => .error
  | .timeout => .error

def outstanding (s : St) : Option AtRequest :=
  match waiting s with
  | some (.request r) => some r
  | _ => none

inductive Ev where
  | call (c : Call)
  | run
  | answer (a : Answer)
  | pollTask
  | xpoll (handle : Int32) (flags : String)
  deriving Repr

def step (s : St) : Ev → Option St
  | .call c => some { push s (call s.d c).2.1 with d := (call s.d c).1 }
  | .run => next (machine ae) s
  | .answer a => (outstanding s).bind fun _ => finishAct (machine ae) s a.ended
  | .pollTask => if 0 < s.d.polls then some (if s.d.connections = [] then s else push s [.poll]) else none
  | .xpoll handle flags => if 0 < s.d.polls then some (pollEvent ae s handle flags) else none

end

end AetherGateway.Lora
