import Boot2Deb.Lib.KeyedUnion
import Boot2Deb.Lib.Resume
import Boot2Deb.Press.SeedRender

/-!
# The seed hook (`first-boot.d/10-seed`)

What the board makes of its seed: the writes the hook issues, file by file, by the variables it read
and by what it finds. It is run without `set -e` and ends with success whatever happened, so what
cannot be done is passed over.
-/

namespace Boot2Deb.FirstBoot
open Rust Shell Press
open Resume (Writes Script)

/-- The files of a board the hook may write. -/
inductive BoardFile where
  | hostname | hosts | authorizedKeys | wifiProfile | wiredProfile | dhcpcdConf
deriving DecidableEq, Repr

/-- The files of a board, as far as they are there. -/
abbrev BoardFiles := BoardFile → Option Str

/-- A write of the hook. -/
inductive SeedWrite where
  /-- What `hostnamectl` does. -/
  | set (file : BoardFile) (text : Str)
  /-- What `sed -i` does to `/etc/hosts`. -/
  | rewriteHosts (name : Str)
  | touch (file : BoardFile)
  /-- `> file`, before anything is written to it. -/
  | truncate (file : BoardFile)
  /-- One `echo` or `printf`. -/
  | append (file : BoardFile) (text : Str)
deriving DecidableEq, Repr

/-! ### Text -/

/-- `[[:space:]]`, of a character in a line. -/
def isSpace (c : Char) : Bool := c = ' ' || c = '\t' || c = '\x0b' || c = '\x0c' || c = '\r'

/-- The pattern `^127\.0\.1\.1[[:space:]].*`. -/
def isAlias (line : Str) : Bool :=
  ((stripPrefix line "127.0.1.1".toList).bind List.head?).any isSpace

/-- The line of a name of the board. -/
def aliasLine (name : Str) : Str := "127.0.1.1\t".toList ++ name

/-- One line of `sed`, with the newline it has or has not. -/
def rewriteLine (name raw : Str) : Str :=
  if isAlias (dropSuffix raw ['\n']) then
    aliasLine name ++ if raw.getLast? = some '\n' then ['\n'] else []
  else raw

def rewriteHosts (name text : Str) : Str := (rawLines text).flatMap (rewriteLine name)

/-- The lines `grep` looks at. -/
def grepLines (text : Str) : List Str := (rawLines text).map (dropSuffix · ['\n'])

/-- `grep -qxF`. -/
def hasLine (line text : Str) : Bool := (grepLines text).contains line

/-! ### The writes -/

def seedWrites : Writes BoardFile SeedWrite (Option Str) where
  target
    | .set file _ | .touch file | .truncate file | .append file _ => file
    | .rewriteHosts _ => .hosts
  edit
    | .set _ text, _ => some text
    | .rewriteHosts name, content => content.map (rewriteHosts name)
    | .touch _, content => some (content.getD [])
    | .truncate _, _ => some []
    | .append _ text, content => some (content.getD [] ++ text)

/-- What the hook finds on a boot. -/
structure SeedBoot where
  /-- The seed partition, where there is one that can be mounted, and its `seed.txt`. -/
  seed : Option (Option Str)
  /-- The names `hostnamectl` takes. -/
  accepts : Str → Bool
  /-- There is an account 1000, and it has a home. -/
  account : Bool
  networkManager : Bool
  /-- The network interfaces by their names, and which of them are wireless. -/
  interfaces : List (Str × Bool)
  uuid : Str

abbrev SeedScript := Script BoardFile SeedWrite (Option Str)

/-- `{ … } > file`. -/
def writeProfile (file : BoardFile) (body : List Str) : List SeedWrite :=
  .truncate file :: body.map fun line => .append file (line ++ ['\n'])

namespace SeedBoot

def hostnameScript (boot : SeedBoot) (vars : SeedVars) : SeedScript := fun _ =>
  if vars.hostname.isEmpty || !boot.accepts vars.hostname then []
  else [.set .hostname vars.hostname, .rewriteHosts vars.hostname]

/-- The loop over the keys, by the file it finds. -/
def keyWrites : Str → List Str → List SeedWrite
  | _, [] => []
  | file, key :: keys =>
    if key.isEmpty || hasLine key file then keyWrites file keys
    else .append .authorizedKeys (key ++ ['\n']) :: keyWrites (file ++ (key ++ ['\n'])) keys

def keysScript (boot : SeedBoot) (vars : SeedVars) : SeedScript := fun files =>
  if vars.keys.isEmpty || !boot.account then []
  else .touch .authorizedKeys ::
    keyWrites ((files .authorizedKeys).getD [])
      (((rawLines vars.keys).filter (·.getLast? = some '\n')).map lineText)

end SeedBoot

/-- What `${s#*,}` leaves of a text with a comma, and nothing without one. -/
def afterComma (s : Str) : Str := (s.dropWhile (· ≠ ',')).drop 1

/-- The parts of `static_ip`, blanks shed. -/
structure StaticParts where
  addr : Str
  gateway : Str
  dns : Str
deriving DecidableEq, Repr

def StaticParts.of (staticIp : Str) : StaticParts where
  addr := staticIp.takeWhile (· ≠ ',')
  gateway := (afterComma staticIp).takeWhile (· ≠ ',')
  dns := afterComma (afterComma staticIp)

/-- `tr ',' c`. -/
def translated (c : Char) (s : Str) : Str := s.map fun d => if d = ',' then c else d

/-- `nm_ipv4_section`. -/
def nmIpv4Section (staticIp : Str) : List Str :=
  if staticIp.isEmpty then ["method=auto".toList]
  else
    let parts := StaticParts.of staticIp
    ["method=manual".toList,
      if parts.gateway.isEmpty then "address1=".toList ++ parts.addr
      else "address1=".toList ++ parts.addr ++ ',' :: parts.gateway] ++
    if parts.dns.isEmpty then [] else ["dns=".toList ++ translated ';' parts.dns ++ [';']]

def wifiProfile (ssid psk staticIp uuid : Str) : List Str :=
  ["[connection]".toList, "id=".toList ++ ssid, "uuid=".toList ++ uuid, "type=wifi".toList, [],
    "[wifi]".toList, "mode=infrastructure".toList, "ssid=".toList ++ ssid] ++
  (if psk.isEmpty then []
    else [[], "[wifi-security]".toList, "key-mgmt=wpa-psk".toList, "psk=".toList ++ psk]) ++
  [[], "[ipv4]".toList] ++ nmIpv4Section staticIp ++ [[], "[ipv6]".toList, "method=auto".toList]

def wiredProfile (staticIp uuid : Str) : List Str :=
  ["[connection]".toList, "id=b2d-seed-wired".toList, "uuid=".toList ++ uuid,
    "type=ethernet".toList, "autoconnect-priority=1".toList, [], "[ipv4]".toList] ++
  nmIpv4Section staticIp ++ [[], "[ipv6]".toList, "method=auto".toList]

/-- What tells a later run that `dhcpcd.conf` has the address. -/
def dhcpcdMarker : Str := "# boot2deb seed static ip".toList

def dhcpcdStanza (staticIp wired : Str) : List Str :=
  let parts := StaticParts.of staticIp
  [dhcpcdMarker, "interface ".toList ++ wired, "static ip_address=".toList ++ parts.addr] ++
  (if parts.gateway.isEmpty then [] else ["static routers=".toList ++ parts.gateway]) ++
  if parts.dns.isEmpty then []
  else ["static domain_name_servers=".toList ++ translated ' ' parts.dns]

namespace SeedBoot

/-- The first interface that is neither the loopback nor wireless. -/
def wired (boot : SeedBoot) : Option Str :=
  (boot.interfaces.find? fun i => i.1 ≠ "lo".toList && !i.2).map (·.1)

def wifiScript (boot : SeedBoot) (vars : SeedVars) : SeedScript := fun _ =>
  if vars.wifiSsid.isEmpty || !boot.networkManager then []
  else writeProfile .wifiProfile
    (wifiProfile vars.wifiSsid vars.wifiPsk (deleteBlanks vars.staticIp) boot.uuid)

/-- The address without a Wi-Fi network to ride on. -/
def staticScript (boot : SeedBoot) (vars : SeedVars) : SeedScript := fun files =>
  let staticIp := deleteBlanks vars.staticIp
  if staticIp.isEmpty || !vars.wifiSsid.isEmpty then []
  else if boot.networkManager then writeProfile .wiredProfile (wiredProfile staticIp boot.uuid)
  else match files .dhcpcdConf with
    | none => []
    | some conf =>
      if hasLine dhcpcdMarker conf then []
      else match boot.wired with
        | none => []
        | some wired =>
          (dhcpcdStanza staticIp wired).map fun line => .append .dhcpcdConf (line ++ ['\n'])

/-- What the hook does about the variables it read. -/
def applyVars (boot : SeedBoot) (vars : SeedVars) : SeedScript :=
  seedWrites.andThen (boot.hostnameScript vars) <| seedWrites.andThen (boot.keysScript vars) <|
    seedWrites.andThen (boot.wifiScript vars) (boot.staticScript vars)

/-- `10-seed`. -/
def hook (boot : SeedBoot) : SeedScript :=
  match boot.seed with
  | none => fun _ => []
  | some text => boot.applyVars (SeedVars.read (text.getD []))

end SeedBoot

end Boot2Deb.FirstBoot
