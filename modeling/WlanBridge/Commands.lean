import WlanBridge.Receive
import WlanBridge.Sessions
import WlanBridge.Throughput

/-! The commands of the server's CLI, as `run_child` registers them, over the globals that
they share with the event loop. A session may call any of them with any words; at which
prompt and privilege libcli offers them is left out. What `show ip_stat` computes in floating
point is a parameter. -/
namespace WlanBridge

abbrev Text := List Char

structure EpollStatInfo where
  epollTimeout : U64
  epollError : U64
  epoolRecv : U64
  deriving DecidableEq, Repr

def EpollStatInfo.zero : EpollStatInfo := ⟨0, 0, 0⟩

structure Globals where
  receiver : Receiver
  epollStatInfo : EpollStatInfo
  logLevel : Int

/-- The part of a session's `struct cli_def` that the commands use, with the texts printed. -/
structure CliDef where
  tvSec : U64
  tvUsec : U64
  mode : Nat
  modestring : Option Text
  out : List Text
  deriving DecidableEq, Repr

def MODE_EXEC : Nat := 0

def MODE_CONFIG : Nat := 1

def CliDef.init : CliDef := ⟨5, 0, MODE_EXEC, none, []⟩

def CliDef.print (cli : CliDef) (text : Text) : CliDef := { cli with out := cli.out ++ [text] }

def CliDef.printAll (cli : CliDef) (texts : List Text) : CliDef := texts.foldl CliDef.print cli

/-- With no description, the mode string is `(config)` in every mode but the first. -/
def cliSetConfigmode (cli : CliDef) (mode : Nat) : CliDef :=
  if mode ≠ cli.mode then
    { cli with mode := mode, modestring := if mode = MODE_EXEC then none else some "(config)".toList }
  else { cli with mode := mode }

def signedDecimal (n : Int) : Text := if n < 0 then '-' :: decimal n.natAbs else decimal n.natAbs

def isSpace (c : Char) : Bool := c = ' ' || ('\t' ≤ c && c ≤ '\r')

/-- The sign and the digits that `strtol` and `strtoul` read. -/
def scanNumber (text : Text) : Option (Bool × Nat) :=
  let (negative, text) := match text.dropWhile isSpace with
    | '-' :: rest => (true, rest)
    | '+' :: rest => (false, rest)
    | rest => (false, rest)
  match text.takeWhile Char.isDigit with
  | [] => none
  | digits => some (negative, digits.foldl (fun n c => 10 * n + (c.toNat - '0'.toNat)) 0)

/-- `strtol`, which saturates, cut to an `int`. -/
def atoi (text : Text) : Int :=
  match scanNumber text with
  | none => 0
  | some (true, n) => (BitVec.ofInt 32 (-(min n (2 ^ 63) : Nat))).toInt
  | some (false, n) => (BitVec.ofNat 32 (min n (2 ^ 63 - 1))).toInt

/-- `sscanf` with `%u`: `strtoul`, which saturates, cut to an `unsigned int`. -/
def sscanfU (text : Text) : Option U32 :=
  (scanNumber text).map fun (negative, n) =>
    if n ≥ 2 ^ 64 then BitVec.ofNat 32 (2 ^ 64 - 1)
    else if negative then -BitVec.ofNat 32 n else BitVec.ofNat 32 n

def isNumber (str : Text) : Bool := str.all Char.isDigit

/-- The clock, as it is read for each account, and the two floating-point terms of
`show_throuthput`: `(double)diff / diff_ns * NS_PER_SEC` as a `u64`, and `(float)mbps / rate` in
the format `%.3f`. -/
structure Meter where
  clock : U32 → Option (U64 × U64)
  perSec : (diff diffNs : U64) → U64
  scaled : (mbps rate : U64) → Text

/-- The clock cannot be read, so that every rate is zero. -/
def Meter.stopped : Meter := ⟨fun _ => none, fun _ _ => 0, fun _ _ => []⟩

def RATE_1K : U64 := 1000

def RATE_1M : U64 := 1000000

def RATE_1G : U64 := 1000000000

def lld9 (n : U64) : Text := padLeft ' ' 9 (signedDecimal n.toInt)

namespace Meter
variable (meter : Meter)

def rate (diff diffNs : U64) : U64 := if diffNs > 0 then meter.perSec diff diffNs else 0

def bps (mbps : U64) : Text :=
  if mbps ≤ RATE_1K then lld9 mbps ++ " bps\n".toList
  else if mbps ≤ RATE_1M then meter.scaled mbps RATE_1K ++ " Kbps\n".toList
  else if mbps ≤ RATE_1G then meter.scaled mbps RATE_1M ++ " Mbps\n".toList
  else meter.scaled mbps RATE_1G ++ " Gbps\n".toList

def rx (shown : Throuthput) : Text :=
  "\tRx-pps: ".toList ++ lld9 (meter.rate shown.diffPktsRx shown.diffNs) ++
    "  Rx-bps: ".toList ++ meter.bps (meter.rate shown.diffBytesRx shown.diffNs * 8)

def tx (shown : Throuthput) : Text :=
  "\tTx-pps: ".toList ++ lld9 (meter.rate shown.diffPktsTx shown.diffNs) ++
    "  Tx-bps: ".toList ++ meter.bps (meter.rate shown.diffBytesTx shown.diffNs * 8)

/-- What `show_throuthput` gives to the callback, in one piece. -/
def text (shown : Throuthput) : Text := snprintf 512 (meter.rx shown ++ meter.tx shown)

def texts (report : StatReport) : List Text := [report.line, meter.text report.shown]

end Meter

def cmdTest (cli : CliDef) (command : Text) (argv : List Text) : Int × CliDef :=
  let cli := cli.print ("called cmd_test with \"".toList ++ command ++ ['"'])
  let cli := cli.print (decimal argv.length ++ " arguments:".toList)
  (CLI_OK, cli.printAll (argv.map fun arg => "        ".toList ++ arg))

/-- The test for a null value is left out: the words of a command are not null. -/
def cmdSet (cli : CliDef) (argv : List Text) : Int × CliDef :=
  match argv with
  | name :: value :: _ =>
    if name = ['?'] then (CLI_OK, cli.print "Specify a variable to set".toList)
    else if value = ['?'] then (CLI_OK, cli.print "Specify a value".toList)
    else if name = "regular_interval".toList then
      let sec := (sscanfU value).getD 0
      if sec < 1 then (CLI_OK, cli.print "Specify a regular callback interval in seconds".toList)
      else
        let cli := { cli with tvSec := sec.setWidth 64, tvUsec := 0 }
        (CLI_OK, cli.print ("Regular callback interval is now ".toList ++ signedDecimal sec.toInt ++
          " seconds".toList))
    else (CLI_OK, cli.print ("Setting \"".toList ++ name ++ "\" to \"".toList ++ value ++ ['"']))
  | _ => (CLI_OK, cli.print "Specify a variable to set".toList)

def cmdConfigIntExit (cli : CliDef) : Int × CliDef := (CLI_OK, cliSetConfigmode cli MODE_CONFIG)

def cmdShowEpollStat (cli : CliDef) (g : Globals) : Int × CliDef :=
  (CLI_OK, cli.print ("epoll recv: ".toList ++ padRight 15 (decimal g.epollStatInfo.epoolRecv.toNat) ++
    " timeout: ".toList ++ padRight 15 (decimal g.epollStatInfo.epollTimeout.toNat) ++
    " error: ".toList ++ decimal g.epollStatInfo.epollError.toNat))

def cmdCleanEpollStat (cli : CliDef) (g : Globals) : Int × CliDef × Globals :=
  (CLI_OK, cli.print "clean success.".toList, { g with epollStatInfo := .zero })

/-- The counters are cleared before the argument is looked at. -/
def cmdSetLogLevel (cli : CliDef) (argv : List Text) (g : Globals) : Int × CliDef × Globals :=
  let g := { g with epollStatInfo := .zero }
  let refused := (CLI_ERROR, cli.print "[Error] please input log level.(1: info, 2: debug)".toList, g)
  match argv with
  | [] => refused
  | level :: _ =>
    if !isNumber level then refused
    else
      let g := { g with logLevel := atoi level }
      (CLI_OK, cli.print (" set log level ".toList ++ signedDecimal g.logLevel ++ " success.".toList), g)

/-- The dump runs over the list of the bridge; a null record in it is a crash. -/
def cmdShowFdbList (cli : CliDef) (g : Globals) : Option (Int × CliDef) :=
  (wlanBrDumpFdb g.receiver.server.bridge).map fun lines => (CLI_OK, cli.printAll lines)

def cmdShowIpStat (cli : CliDef) (meter : Meter) (g : Globals) : Int × CliDef × Globals :=
  let server := g.receiver.server
  let (reports, stats) := wlanIpDumpStatic server.stats meter.clock
  (CLI_OK, cli.printAll (reports.flatMap meter.texts),
    { g with receiver := { g.receiver with server := { server with stats := stats } } })

/-- The commands by the places at which `run_child` registers them. -/
inductive Command where
  | test
  | showEpollStat
  | showFdb
  | showIpStat
  | showCounters
  | setEpollStatClean
  | setLogLevel
  | setCounters
  | exit
  deriving DecidableEq, Repr

def Command.name : Command → Text
  | .test => "test".toList
  | .showEpollStat => "show epoll_stat".toList
  | .showFdb => "show fdb".toList
  | .showIpStat => "show ip_stat".toList
  | .showCounters => "show counters".toList
  | .setEpollStatClean => "set epoll_stat_clean".toList
  | .setLogLevel => "set log_level".toList
  | .setCounters => "set counters".toList
  | .exit => "exit".toList

/-- The handler of a command; there is no result when the process crashes. -/
def Command.run (c : Command) (meter : Meter) (argv : List Text) (cli : CliDef)
    (g : Globals) : Option (Int × CliDef × Globals) :=
  let reads (result : Int × CliDef) := (result.1, result.2, g)
  match c with
  | .test => some (reads (cmdTest cli c.name argv))
  | .showEpollStat => some (reads (cmdShowEpollStat cli g))
  | .showFdb => (cmdShowFdbList cli g).map reads
  | .showIpStat => some (cmdShowIpStat cli meter g)
  | .showCounters => some (reads (cmdTest cli c.name argv))
  | .setEpollStatClean => some (cmdCleanEpollStat cli g)
  | .setLogLevel => some (cmdSetLogLevel cli argv g)
  | .setCounters => some (reads (cmdSet cli argv))
  | .exit => some (reads (cmdConfigIntExit cli))

def Command.clears : Command → Bool
  | .setEpollStatClean => true
  | .setLogLevel => true
  | _ => false

theorem cmdSetLogLevel_counters (cli : CliDef) (argv : List Text) (g : Globals) :
    (cmdSetLogLevel cli argv g).2.2.epollStatInfo = .zero := by
  cases argv with
  | nil => rfl
  | cons level rest =>
    cases number : isNumber level with
    | true => simp [cmdSetLogLevel, number]
    | false => simp [cmdSetLogLevel, number]

theorem Command.run_counters (c : Command) (meter : Meter) (argv : List Text) (cli : CliDef)
    (g : Globals) (ran : c.run meter argv cli g = some result) :
    result.2.2.epollStatInfo = if c.clears then .zero else g.epollStatInfo := by
  cases c with
  | setLogLevel =>
    obtain rfl := Option.some.inj ran
    exact cmdSetLogLevel_counters cli argv g
  | showFdb =>
    obtain ⟨_, _, rfl⟩ := Option.map_eq_some_iff.mp ran
    rfl
  | _ =>
    obtain rfl := Option.some.inj ran
    rfl

end WlanBridge
