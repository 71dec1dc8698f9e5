import Dylaris.Library.Glob
import Mathlib.Data.List.Sort

/-!
# The Redis rights Core generates

`core/services/redisacl` gives every node three kinds of Redis user: the node's agent, one log
shipper for each server on the node, which runs inside the tenant's container, and the node's Link.
Each is a list of `ACL SETUSER` arguments that `BuildNodeACLRules`, `BuildShipperACLRules` and
`BuildLinkACLRules` assemble from literals, the node's token and the ids of the node's servers;
`BeamQuotaSelector` adds a selector with the upload counters of the users whose uploads the node
handles.  The rules are modelled as the texts the source builds, and read back as Redis reads them:

* `~pattern` lets a command read and write a key that matches the pattern, `%R~pattern` read it only;
* `&pattern` lets a command publish on and subscribe to a channel;
* `(rule rule …)` is a selector, with rules of its own.

What may stand in a name is carried by its type.  `NodeToken` is wider than what Core mints, which is
a random UUID in its textual form; `ServerId` and `Username` are `validate.IsServerUUID` and
`validate.IsUsername`.  A Link's tunnel token is the hexadecimal SHA-256 of the node's token and the
cluster secret, for an arbitrary hash of that length.
-/

set_option autoImplicit false

open Text

namespace Dylaris.RedisAcl

/-! ## Names -/

def isAlnum (b : UInt8) : Bool :=
  (0x30 ≤ b && b ≤ 0x39) || (0x41 ≤ b && b ≤ 0x5A) || (0x61 ≤ b && b ≤ 0x7A)

def isHex (b : UInt8) : Bool := (0x30 ≤ b && b ≤ 0x39) || (0x61 ≤ b && b ≤ 0x66)

/-- A text with the length and the alphabet of a UUID. -/
def isToken (t : Text) : Bool := t.length = 36 && t.all fun b ↦ isHex b || b = 0x2D

/-- The id Core gives a node. -/
@[ext] structure NodeToken where
  text : Text
  minted : isToken text
deriving DecidableEq

/-- `^[a-zA-Z0-9_-]{8,80}$`. -/
def isServerUUID (t : Text) : Bool :=
  8 ≤ t.length && t.length ≤ 80 && t.all fun b ↦ isAlnum b || b = 0x5F || b = 0x2D

@[ext] structure ServerId where
  text : Text
  valid : isServerUUID text
deriving DecidableEq

/-- `^[a-zA-Z0-9][a-zA-Z0-9_.-]{2,31}$`. -/
def isUsername (t : Text) : Bool :=
  3 ≤ t.length && t.length ≤ 32 && (t.head?.any isAlnum) &&
    t.all fun b ↦ isAlnum b || b = 0x5F || b = 0x2E || b = 0x2D

@[ext] structure Username where
  text : Text
  valid : isUsername text
deriving DecidableEq

/-- A digest of 32 bytes. -/
structure Digest where
  bytes : Text
  length_eq : bytes.length = 32

def hexDigit (n : UInt8) : UInt8 := if n < 10 then 0x30 + n else 0x61 + (n - 10)

/-- `hex.EncodeToString`. -/
def hexEncode (t : Text) : Text := t.flatMap fun b ↦ [hexDigit (b / 16), hexDigit (b % 16)]

/-- `LinkTunnelToken`, for a hash function. -/
def linkTunnelToken (sha256 : Text → Digest) (nodeToken : NodeToken) (clusterSecret : Text) : Text :=
  hexEncode (sha256 (nodeToken.text ++ clusterSecret)).bytes

/-! ## Kinds of rule -/

/-- `~pattern`. -/
def readWrite (pattern : Text) : Text := lit "~" ++ pattern

/-- `%R~pattern`. -/
def readOnly (pattern : Text) : Text := lit "%R~" ++ pattern

/-- `&pattern`. -/
def channel (pattern : Text) : Text := lit "&" ++ pattern

/-! ## The rules -/

/-- The grant every principal gets: read, write, stream, pubsub, connection and transaction, minus
dangerous, admin and scripting, and without `SCAN`. -/
def commandCats : List Text :=
  [lit "+@read", lit "+@write", lit "+@stream", lit "+@pubsub", lit "+@connection",
    lit "+@transaction", lit "-@dangerous", lit "-@admin", lit "-@scripting", lit "-scan"]

/-- `beamauth.AccessEpochPrefix`. -/
def accessEpochPrefix : Text := lit "beam:access-epoch:"

/-- `quota.DailyKeyPrefix`. -/
def dailyKeyPrefix (username : Text) : Text := lit "dylaris:beam:daily:" ++ username ++ lit ":"

/-- `SFTPAuthKeyPrefix`. -/
def sftpAuthKeyPrefix (nodeToken : Text) : Text := lit "sftp:auth:" ++ nodeToken ++ lit ":"

/-- `queue.MigrationNodeKeyPattern`. -/
def migrationNodeKeyPattern (nodeToken : Text) : Text :=
  lit "dylaris:migration:node:" ++ nodeToken ++ lit ":*"

/-- The shared keys a node reads. -/
def globalReadKeys : List Text :=
  [readOnly (lit "dylaris:routing_mode"), readOnly (lit "dylaris:file_access_mode"),
    readOnly (lit "dylaris:placement:*"),
    readOnly (lit "beam:bw_limit"), readOnly (lit "beam:bw_up_internal"),
    readOnly (lit "beam:bw_down_internal"),
    readOnly (lit "beam:max_upload_bytes"), readOnly (lit "beam:daily_upload_bytes"),
    readOnly (accessEpochPrefix ++ lit "*"),
    readOnly (lit "dylaris:core:*")]

/-- What a node does in a migration: its own endpoint and its own progress are its to write. -/
def migrationKeys (token : Text) : List Text :=
  [readWrite (lit "dylaris:migration:endpoint:" ++ token),
    readOnly (lit "dylaris:migration:endpoint:*"),
    readWrite (migrationNodeKeyPattern token),
    readOnly (lit "dylaris:migration:*:orchestration")]

/-- The channels the node reports on. -/
def reportChannels (token : Text) : List Text :=
  [channel (lit "dylaris:backup:results:" ++ token),
    channel (lit "dylaris:backup:restores:" ++ token),
    channel (lit "dylaris:mods:results:" ++ token),
    channel (lit "dylaris:setup:results:" ++ token),
    channel (lit "dylaris:sftp:audit:" ++ token)]

/-- The four rules every principal's list begins with. -/
def header (password : Text) : List Text :=
  [lit "on", lit ">" ++ password, lit "resetkeys", lit "resetchannels"]

/-- `BuildNodeACLRules`. -/
def buildNodeACLRules (token password : Text) (serverUUIDs : List Text) : List Text :=
  header password ++
    [readWrite (lit "dylaris:node:" ++ token ++ lit ":*"),
      readWrite (lit "dylaris:discovery:" ++ token),
      readWrite (lit "beam:node-endpoint:" ++ token),
      readWrite (lit "dylaris:errors:node:" ++ token),
      readWrite (lit "node:" ++ token ++ lit ":*"),
      readOnly (lit "sftp:node:" ++ token ++ lit ":*"),
      readOnly (sftpAuthKeyPrefix token ++ lit "*")] ++
    migrationKeys token ++
    serverUUIDs.map (fun u ↦ readWrite (lit "dylaris:server:" ++ u ++ lit ":*")) ++
    globalReadKeys ++
    reportChannels token ++
    serverUUIDs.map (fun u ↦ channel (lit "dylaris:server:" ++ u ++ lit ":stats:live")) ++
    commandCats

/-- `BuildShipperACLRules`: the keys the shipper touches, named one by one. -/
def buildShipperACLRules (password serverUUID : Text) : List Text :=
  header password ++
    [readWrite (lit "dylaris:server:" ++ serverUUID ++ lit ":logs"),
      readWrite (lit "dylaris:server:" ++ serverUUID ++ lit ":logs:*"),
      readWrite (lit "dylaris:server:" ++ serverUUID ++ lit ":java-heap"),
      readWrite (lit "dylaris:server:" ++ serverUUID ++ lit ":input"),
      readWrite (lit "dylaris:server:" ++ serverUUID ++ lit ":log_filter_rcon"),
      readWrite (lit "dylaris:server:" ++ serverUUID ++ lit ":stop-requested")] ++
    commandCats

/-- `BuildLinkACLRules`. -/
def buildLinkACLRules (password nodeToken tunnelToken : Text) : List Text :=
  header password ++
    [readWrite (lit "link:" ++ tunnelToken),
      readWrite (lit "online_link:" ++ tunnelToken),
      readWrite (lit "dylaris:errors:link:" ++ nodeToken),
      readWrite (lit "dylaris:link:" ++ nodeToken ++ lit ":stats"),
      readWrite (lit "hub:link:discovery:" ++ nodeToken),
      readWrite (lit "beam:node:" ++ nodeToken),
      readOnly (lit "sys:edges"), readOnly (lit "edge:registry:*"),
      readOnly (lit "edge:cert:fingerprint:*"),
      readOnly (lit "sys:beams"), readOnly (lit "beam:registry:*"),
      readOnly (lit "beam:cert:fingerprint:*"),
      readOnly (lit "beam:node-endpoint:" ++ nodeToken)] ++
    commandCats

/-- The order of `sort.Strings`. -/
def textLE (s t : Text) : Bool := decide (s ≤ t)

/-- `BeamQuotaSelector`; the empty text for a node that hosts nobody. -/
def beamQuotaSelector (usernames : List Text) : Text :=
  if usernames = [] then []
  else
    lit "(" ++
      (usernames.mergeSort textLE).flatMap (fun u ↦ readWrite (dailyKeyPrefix u) ++ lit "* ") ++
      lit "+get +incrby +expire)"

/-- What `SetNodeBeamQuotaGrant` sets on the agent's user. -/
def beamQuotaGrant (usernames : List Text) : List Text :=
  lit "clearselectors" ::
    (if beamQuotaSelector usernames = [] then [] else [beamQuotaSelector usernames])

/-! ## The users -/

/-- A principal a node has a Redis user for. -/
inductive Principal
  | agent (token : NodeToken)
  | shipper (token : NodeToken) (server : ServerId)
  | link (token : NodeToken)
deriving DecidableEq

/-- `NodeUsername`, `ShipperUsername` and `LinkUsername`. -/
def Principal.username : Principal → Text
  | .agent token => lit "node-" ++ token.text
  | .shipper token server => lit "node-" ++ token.text ++ lit "-shipper-" ++ server.text
  | .link token => lit "node-" ++ token.text ++ lit "-link"

/-- A node, with what its rights are made of. -/
structure Node where
  token : NodeToken
  servers : List ServerId
  usernames : List Username
  /-- The password of each of its principals. -/
  password : Principal → Text

/-- The principals of a node: one shipper for each of its servers. -/
def Node.principals (n : Node) : List Principal :=
  .agent n.token :: .link n.token :: n.servers.map (.shipper n.token)

/-- Everything that is set on a principal's user. -/
def Node.rules (tunnelToken : NodeToken → Text) (n : Node) : Principal → List Text
  | .agent token =>
    buildNodeACLRules token.text (n.password (.agent token)) (n.servers.map ServerId.text) ++
      beamQuotaGrant (n.usernames.map Username.text)
  | .shipper token server =>
    buildShipperACLRules (n.password (.shipper token server)) server.text
  | .link token => buildLinkACLRules (n.password (.link token)) token.text (tunnelToken token)

/-! ## Reading the rules -/

/-- The flags of a `%…~` rule: whether it grants writing, and the pattern. -/
def flaggedPattern (write : Bool) : Text → Option (Bool × Text)
  | [] => none
  | b :: t =>
    if b = 0x7E then some (write, t)
    else if b = 0x52 then flaggedPattern write t
    else if b = 0x57 then flaggedPattern true t
    else none

/-- The pattern of the keys that one rule lets its user write. -/
def writePattern : Text → Option Text
  | [] => none
  | b :: t =>
    if b = 0x7E then some t
    else if b = 0x25 then (flaggedPattern false t).bind fun f ↦ if f.1 then some f.2 else none
    else if b :: t = lit "allkeys" then some (lit "*")
    else none

/-- The pattern of the channels that one rule lets its user publish on. -/
def publishPattern : Text → Option Text
  | [] => none
  | b :: t =>
    if b = 0x26 then some t
    else if b :: t = lit "allchannels" then some (lit "*")
    else none

/-- The rules a rule is made of: those inside a selector, or the rule itself. -/
def parts (rule : Text) : List Text :=
  if rule.head? = some 0x28 then (rule.drop 1).dropLast.splitOn 0x20 else [rule]

/-- The patterns of the keys a user with these rules may write. -/
def writePatterns (rules : List Text) : List Text := (rules.flatMap parts).filterMap writePattern

/-- The patterns of the channels a user with these rules may publish on. -/
def publishPatterns (rules : List Text) : List Text :=
  (rules.flatMap parts).filterMap publishPattern

end Dylaris.RedisAcl
