import Fleet.Host
import Fleet.Pool.Dialogue
import Fleet.Snapshot

/-!
# Obtaining devices

A pool turns the reservations of a request into devices: for each reservation
that succeeded, in order, the host is looked up, a connection opened and a
transfer agent opened over it. What a pool asks of the services and factories
behind it is a `PoolCall`; what it does is a dialogue of such calls.

* **failure** — the first reservation that cannot be opened decides. Its own
  connection, if it has one already, is closed at once, then the devices that
  were opened before it, in the order in which they were opened;
* **closing** — a device closes its transfer agent and then its connection.
  A failure to close changes nothing.

The handles of connections and transfer agents are the factories' own affair
and are the parameters `C` and `T`.
-/

namespace Fleet

/-- What a pool asks of the services and factories behind it. -/
inductive PoolCall (C T : Type)
  | exchange (reservation : Reservation)
  | connect (host : Host)
  | openTransfer (request : String) (connection : C) (host : Host)
  | closeTransfer (transfer : T)
  | closeConnection (connection : C)
  /-- Gives a request back. -/
  | release (request : String)
  | closeService
  | closeConnections
  | closeTransfers

/-- How a call of a pool is answered. -/
def PoolCall.Answer {C T : Type} : PoolCall C T → Type
  | exchange _ => Except ReservationError Host
  | connect _ => Except ConnectionError C
  | openTransfer .. => Except TransferError T
  | closeTransfer _ => Except TransferError Unit
  | closeConnection _ => Except ConnectionError Unit
  | release _ => Except ProvisionError Unit
  | closeService => Except ProvisionError Unit
  | closeConnections => Except ConnectionError Unit
  | closeTransfers => Except TransferError Unit

/-- What a pool does between being called and answering. -/
abbrev PoolDialogue (C T R : Type) : Type := Dialogue (PoolCall C T) PoolCall.Answer R

/-- A granted host with an open connection and an open transfer agent. -/
structure Device (C T : Type) where
  host : Host
  connection : C
  transfer : T

namespace PoolDialogue

variable {C T : Type}

/-- Closes a device. -/
def closeDevice (d : Device C T) : PoolDialogue C T Unit :=
  .ask (.closeTransfer d.transfer) fun _ => .ask (.closeConnection d.connection) fun _ => .done ()

/-- Closes devices in order. -/
def closeDevices : List (Device C T) → PoolDialogue C T Unit
  | [] => .done ()
  | d :: rest => (closeDevice d).bind fun _ => closeDevices rest

/-- Opens the device of a reservation. -/
def openDevice (request : String) (r : Reservation) :
    PoolDialogue C T (Except ProvisionError (Device C T)) :=
  .ask (.exchange r) fun
    | .error e => .done (.error (.reservation e))
    | .ok host => .ask (.connect host) fun
      | .error e => .done (.error (.connection e))
      | .ok connection => .ask (.openTransfer request connection host) fun
        | .ok transfer => .done (.ok ⟨host, connection, transfer⟩)
        | .error e => .ask (.closeConnection connection) fun _ => .done (.error (.transfer e))

/-- Opens the devices of reservations in order, after those that are open
already; closes all of them when one cannot be opened. -/
def openDevices (request : String) (opened : List (Device C T)) :
    List Reservation → PoolDialogue C T (Except ProvisionError (List (Device C T)))
  | [] => .done (.ok opened)
  | r :: rest => (openDevice request r).bind fun
    | .ok d => openDevices request (opened ++ [d]) rest
    | .error e => (closeDevices opened).bind fun _ => .done (.error e)

/-- The reservations of a snapshot that devices can be opened for. -/
def granted (s : Snapshot) : List Reservation :=
  s.reservations.filter fun r => r.status == .succeeded

/-- Opens a device for every reservation of a snapshot that succeeded. -/
def obtain (s : Snapshot) : PoolDialogue C T (Except ProvisionError (List (Device C T))) :=
  openDevices s.id [] (granted s)

/-- Closes the service and both factories, whatever any of them answers. -/
def closePool : PoolDialogue C T Unit :=
  .ask .closeService fun _ => .ask .closeConnections fun _ => .ask .closeTransfers fun _ => .done ()

end PoolDialogue

end Fleet
