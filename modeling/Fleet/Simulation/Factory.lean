import Fleet.Pool.Obtain
import Fleet.Ssh.Client

/-!
# Factories of a simulation

Three kinds of factories open connections and transfer agents:

* **recording** — counts what is opened, closed and run, and refuses chosen
  devices;
* **journal** — writes a line for each call, whether it succeeds or not, and
  fails the calls with chosen keys. The key of a line is what stands before its
  first colon or the word `for`;
* **ssh** — runs the ssh clients, on a runner that answers from a script.

A handle of any of them is the number of the factory and the host.
-/

namespace Fleet.Simulation

/-- What a recording factory has counted. -/
structure Counters where
  connectionsOpened : Nat := 0
  connectionsClosed : Nat := 0
  transfersOpened : Nat := 0
  transfersClosed : Nat := 0
  commands : Nat := 0
  deriving DecidableEq, Repr

/-- A factory of connections and transfer agents. -/
inductive Factory
  /-- Refuses the connections and the transfer agents of the given devices. -/
  | recording (failConnections failTransfers : List String) (counters : Counters)
  /-- Fails the calls with the given keys. -/
  | journal (failing : List String) (lines : List String)
  | ssh (settings : SshSettings) (home : Option String) (runner : Ssh.ScriptedRunner)

/-- An open connection or transfer agent. -/
structure Handle where
  factory : Nat
  host : Host
  deriving DecidableEq, Repr

namespace Factory

/-- What stands before the first colon or the word `for`. -/
def keyChars : List Char → List Char
  | ':' :: _ => []
  | ' ' :: 'f' :: 'o' :: 'r' :: ' ' :: _ => []
  | c :: rest => c :: keyChars rest
  | [] => []

/-- The key of a line in a journal. -/
def key (line : String) : String := String.ofList (keyChars line.toList)

/-- What a failing call of a journal reports. -/
def reason (line : String) : String := s!"scripted: {key line}"

/-- Writes a line; the call's failure if it is to fail. -/
def note {ε : Type} (failing lines : List String) (line : String) (failure : ε) :
    Factory × Except ε Unit :=
  (journal failing (lines ++ [line]),
    if failing.contains (key line) then .error failure else .ok ())

/-- Writes a line for a call on a connection. -/
def noteConnection (failing lines : List String) (deviceId line : String) :
    Factory × Except ConnectionError Unit :=
  note failing lines line (.unreachable deviceId (reason line))

/-- Writes a line for a call on a transfer agent. -/
def noteTransfer (failing lines : List String) (line : String) :
    Factory × Except TransferError Unit :=
  note failing lines line (.unsupported (reason line))

/-- Opens a connection. -/
def connect (f : Factory) (h : Host) : Factory × Except ConnectionError Unit :=
  match f with
  | recording failConnections failTransfers n =>
    if failConnections.contains h.deviceId then
      (f, .error (.unreachable h.hostName "scripted failure"))
    else
      (recording failConnections failTransfers
        { n with connectionsOpened := n.connectionsOpened + 1 }, .ok ())
  | journal failing lines => noteConnection failing lines h.deviceId s!"connect {h.deviceId}"
  | ssh .. => (f, .ok ())

/-- Opens a transfer agent for a request. -/
def openTransfer (f : Factory) (request : String) (h : Host) :
    Factory × Except TransferError Unit :=
  match f with
  | recording failConnections failTransfers n =>
    if failTransfers.contains h.deviceId then
      (f, .error (.unsupported s!"scripted failure for {h.deviceId}"))
    else
      (recording failConnections failTransfers
        { n with transfersOpened := n.transfersOpened + 1 }, .ok ())
  | journal failing lines => noteTransfer failing lines s!"transfer {h.deviceId} for {request}"
  | ssh .. => (f, .ok ())

/-- Closes a connection. -/
def closeConnection (f : Factory) (h : Host) : Factory × Except ConnectionError Unit :=
  match f with
  | recording failConnections failTransfers n =>
    (recording failConnections failTransfers
      { n with connectionsClosed := n.connectionsClosed + 1 }, .ok ())
  | journal failing lines =>
    noteConnection failing lines h.deviceId s!"close_connection {h.deviceId}"
  | ssh .. => (f, .ok ())

/-- Closes a transfer agent. -/
def closeTransfer (f : Factory) (h : Host) : Factory × Except TransferError Unit :=
  match f with
  | recording failConnections failTransfers n =>
    (recording failConnections failTransfers
      { n with transfersClosed := n.transfersClosed + 1 }, .ok ())
  | journal failing lines => noteTransfer failing lines s!"close_transfer {h.deviceId}"
  | ssh .. => (f, .ok ())

/-- Closes the factory as a factory of connections. -/
def closeConnections (f : Factory) : Factory × Except ConnectionError Unit :=
  match f with
  | journal failing lines => noteConnection failing lines "" "close_connections"
  | f => (f, .ok ())

/-- Closes the factory as a factory of transfer agents. -/
def closeTransfers (f : Factory) : Factory × Except TransferError Unit :=
  match f with
  | journal failing lines => noteTransfer failing lines "close_transfers"
  | f => (f, .ok ())

/-- The output of a command that is not really run: its own line. -/
def echo (c : Command) : CommandOutput := ⟨0, Text.Utf8.encode c.line, [], c⟩

/-- Runs a command over a connection. -/
def execute (f : Factory) (h : Host) (c : Command) :
    Factory × Except ConnectionError CommandOutput :=
  match f with
  | recording failConnections failTransfers n =>
    (recording failConnections failTransfers { n with commands := n.commands + 1 }, .ok (echo c))
  | journal failing lines =>
    let (f, answer) := noteConnection failing lines h.deviceId s!"execute {h.deviceId}: {c.line}"
    (f, answer.map fun _ => echo c)
  | ssh settings home runner =>
    let (runner, answer) := runner.run (Ssh.commandRun settings home h c)
    (ssh settings home runner, Ssh.commandOutcome settings h c answer)

/-- The word for a copy in a journal. -/
def verb : Ssh.Direction → String
  | .toDevice => "send"
  | .fromDevice => "receive"

/-- Copies a file by a transfer agent. -/
def copy (f : Factory) (h : Host) (c : Copy) (d : Ssh.Direction) :
    Factory × Except TransferError Unit :=
  match f with
  | recording .. => (f, .ok ())
  | journal failing lines =>
    noteTransfer failing lines s!"{verb d} {h.deviceId}: {c.source} -> {c.destination}"
  | ssh settings home runner =>
    let (runner, answer) := runner.run (Ssh.copyRun settings home h c d)
    (ssh settings home runner, Ssh.copyOutcome settings answer)

/-- What a scripted runner of a simulation fails with when its script is used
up. -/
def exhausted : String := "no scripted response available"

/-- Adds answers to the script of an ssh factory's runner. -/
def extendScript (f : Factory) (answers : List (Except RunnerError ProcessOutput)) : Factory :=
  match f with
  | ssh settings home runner =>
    ssh settings home { runner with answers := runner.answers ++ answers }
  | f => f

end Factory

end Fleet.Simulation
