import Mathlib.Data.List.Basic

/-!
# The capability catalog

`core/authz/catalog.go`: the ordered list of every capability the platform knows, each with the
scope it is enforced in and its verb.  A capability is stored and checked by its ID, a string; an ID
that is not in the catalog is denied at every call site, so the model keeps IDs as strings and looks
them up with `get`, as the source does.
-/

set_option autoImplicit false

namespace Dylaris.Authz

/-- Where a capability is enforced: platform-wide, per server, or across an owner's realm. -/
inductive Scope
  | panel | server | owner
deriving DecidableEq, Repr

/-- The action part of a capability. -/
inductive Verb
  | read | write | delete | create | restore | start | stop | restart | kill | exec | access | use
  | manage | send
deriving DecidableEq, Repr

/-- One entry of the catalog.  The label and the category only feed the role editor. -/
structure Capability where
  id : String
  scope : Scope
  verb : Verb
deriving DecidableEq, Repr

/-- The ordered single source of truth. -/
def catalog : List Capability := [
  ⟨"overview.read", .server, .read⟩,
  ⟨"console.read", .server, .read⟩,
  ⟨"console.send", .server, .send⟩,
  ⟨"power.start", .server, .start⟩,
  ⟨"power.stop", .server, .stop⟩,
  ⟨"power.restart", .server, .restart⟩,
  ⟨"power.kill", .server, .kill⟩,
  ⟨"rcon.exec", .server, .exec⟩,
  ⟨"players.read", .server, .read⟩,
  ⟨"players.manage", .server, .manage⟩,
  ⟨"files.read", .server, .read⟩,
  ⟨"files.write", .server, .write⟩,
  ⟨"files.delete", .server, .delete⟩,
  ⟨"sftp.access", .server, .access⟩,
  ⟨"config.read", .server, .read⟩,
  ⟨"config.write", .server, .write⟩,
  ⟨"mods.read", .server, .read⟩,
  ⟨"mods.write", .server, .write⟩,
  ⟨"mods.delete", .server, .delete⟩,
  ⟨"domains.read", .server, .read⟩,
  ⟨"domains.write", .server, .write⟩,
  ⟨"backups.read", .server, .read⟩,
  ⟨"backups.create", .server, .create⟩,
  ⟨"backups.delete", .server, .delete⟩,
  ⟨"backups.restore", .server, .restore⟩,
  ⟨"backupstorage.read", .owner, .read⟩,
  ⟨"backupstorage.write", .owner, .write⟩,
  ⟨"backupstorage.delete", .owner, .delete⟩,
  ⟨"network.read", .server, .read⟩,
  ⟨"network.write", .server, .write⟩,
  ⟨"tabs.read", .server, .read⟩,
  ⟨"tabs.write", .server, .write⟩,
  ⟨"schedule.read", .server, .read⟩,
  ⟨"schedule.write", .server, .write⟩,
  ⟨"schedule.delete", .server, .delete⟩,
  ⟨"stats.read", .server, .read⟩,
  ⟨"spark.use", .server, .use⟩,
  ⟨"members.read", .server, .read⟩,
  ⟨"members.write", .server, .write⟩,
  ⟨"members.delete", .server, .delete⟩,
  ⟨"server.settings.write", .server, .write⟩,
  ⟨"server.delete", .server, .delete⟩,
  ⟨"server.audit.read", .server, .read⟩,
  ⟨"modpack.read", .owner, .read⟩,
  ⟨"modpack.write", .owner, .write⟩,
  ⟨"modpack.delete", .owner, .delete⟩,
  ⟨"library.read", .owner, .read⟩,
  ⟨"library.write", .owner, .write⟩,
  ⟨"library.delete", .owner, .delete⟩,
  ⟨"roles.read", .owner, .read⟩,
  ⟨"roles.write", .owner, .write⟩,
  ⟨"roles.delete", .owner, .delete⟩,
  ⟨"usage.read", .owner, .read⟩,
  ⟨"apikeys.read", .owner, .read⟩,
  ⟨"apikeys.write", .owner, .write⟩,
  ⟨"apikeys.delete", .owner, .delete⟩,
  ⟨"users.read", .panel, .read⟩,
  ⟨"users.write", .panel, .write⟩,
  ⟨"users.delete", .panel, .delete⟩,
  ⟨"panelroles.read", .panel, .read⟩,
  ⟨"panelroles.write", .panel, .write⟩,
  ⟨"panelroles.delete", .panel, .delete⟩,
  ⟨"nodes.read", .panel, .read⟩,
  ⟨"nodes.write", .panel, .write⟩,
  ⟨"nodes.delete", .panel, .delete⟩,
  ⟨"topology.read", .panel, .read⟩,
  ⟨"topology.write", .panel, .write⟩,
  ⟨"tickets.read", .panel, .read⟩,
  ⟨"tickets.write", .panel, .write⟩,
  ⟨"tickets.delete", .panel, .delete⟩,
  ⟨"templates.create", .panel, .create⟩,
  ⟨"templates.admin.read", .panel, .read⟩,
  ⟨"settings.read", .panel, .read⟩,
  ⟨"settings.write", .panel, .write⟩,
  ⟨"plans.read", .panel, .read⟩,
  ⟨"plans.write", .panel, .write⟩,
  ⟨"servers.read", .panel, .read⟩,
  ⟨"servers.write", .panel, .write⟩,
  ⟨"audit.read", .panel, .read⟩
]

/-- `Get`: the capability with this ID, `none` when the catalog does not have it. -/
def get (id : String) : Option Capability := catalog.find? fun c ↦ c.id == id

/-- The scope of a capability ID, `none` for an ID the catalog does not have. -/
def scopeOf (id : String) : Option Scope := (get id).map Capability.scope

/-- The capabilities a grant can give: SERVER and OWNER scope. -/
def Delegable (id : String) : Prop := scopeOf id = some .server ∨ scopeOf id = some .owner

instance (id : String) : Decidable (Delegable id) :=
  inferInstanceAs (Decidable (_ ∨ _))

end Dylaris.Authz
