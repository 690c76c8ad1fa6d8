import Fleet.Platform

/-!
# Hosts

A host is a machine that can be leased: an identifier that reservations use,
an address, a port, an optional jump host, and a platform. Two hosts are the
same only if they agree in every field; a host that moves to another address
is another host under the same device identifier.

* **drafts** — `HostDraft.build` trims the texts and checks the device
  identifier, the address and the platform, in this order;
* **labels** — `Host.label` names a host in reports: by its device identifier
  when everything else follows from it, by all fields otherwise.
-/

namespace Fleet

/-- The port of a host that names none. -/
def defaultPort : UInt16 := 22

/-- A machine that can be leased. -/
structure Host where
  deviceId : String
  hostName : String
  port : UInt16 := defaultPort
  proxyJump : Option String := none
  platform : Platform
  deriving DecidableEq, Repr, Inhabited

/-- The parts of a host as they come in, not yet checked. -/
structure HostDraft where
  deviceId : String := ""
  hostName : String := ""
  port : Option UInt16 := none
  proxyJump : Option String := none
  platform : Option Platform := none
  deriving DecidableEq, Repr, Inhabited

namespace HostDraft

/-- The trimmed text, unless it is blank. -/
def nonBlank? (s : String) : Option String :=
  let t := Text.trim s
  if t.isEmpty then none else some t

/-- The host of a draft, or the first of its fields that is missing. -/
def build (d : HostDraft) : Except ValueError Host :=
  match nonBlank? d.deviceId, nonBlank? d.hostName, d.platform with
  | none, _, _ => .error (.missing "device_id")
  | some _, none, _ => .error (.missing "host_name")
  | some _, some _, none => .error (.missing "platform")
  | some deviceId, some hostName, some platform =>
    .ok { deviceId, hostName, port := d.port.getD defaultPort,
          proxyJump := d.proxyJump.bind nonBlank?, platform }

end HostDraft

namespace Host

/-- The platform of the sample hosts. -/
def samplePlatform : Platform := ⟨"unix", "amd64"⟩

/-- The address that belongs to a device identifier by convention. -/
def conventionalName (deviceId : String) : String := deviceId ++ ".example.com"

/-- The host that a device identifier names by convention. -/
def conventional (deviceId : String) : Host :=
  { deviceId, hostName := conventionalName deviceId, platform := samplePlatform }

/-- The `n`-th sample host. -/
def sample (n : Nat) : Host := conventional s!"host-{n}"

/-- A host's name in reports. -/
def label (h : Host) : String :=
  if h = conventional h.deviceId then h.deviceId
  else "|".intercalate
    [h.deviceId, h.hostName, toString h.port, h.proxyJump.getD "~", h.platform.text]

end Host

end Fleet
