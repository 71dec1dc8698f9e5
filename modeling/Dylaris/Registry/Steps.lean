import Dylaris.Registry.Model

/-!
# What a call can do

`callStep_cases` says once what the next operation of a call can do to Core: look at it, take a message,
drop or add a pending request, stop a flow, or close or feed the channel of a reader.  `Follows` says that
a call has only fewer channels to close than before.
-/

set_option autoImplicit false

namespace Dylaris.Registry

open Option

namespace Call

/-- The reader's channel, which the call's pump will close. -/
def out : Call → Option ChanId
  | .registered _ _ _ out _ | .opening _ _ _ out _ | .pumping _ _ _ out _ _ => some out
  | _ => none

/-- The stop that the call has made and not yet put into the map of stops. -/
def unlisted : Call → Option ChanId
  | .registered _ _ _ _ stop => some stop
  | _ => none

/-- The pending request that the call will close if its `Send` fails. -/
def sends : Call → Option (ConnId × String × ChanId)
  | .registered c id ch _ _ | .opening c id ch _ _ => some (c, id, ch)
  | _ => none

/-- The id under which the call has yet to register a plain request. -/
def registers : Call → Option String
  | .found _ id _ => some id
  | _ => none

/-- The id of a call that is to register, or has registered and not yet sent, a streaming request. -/
def streams : Call → Option String
  | .streaming _ id | .registered _ id _ _ _ | .opening _ id _ _ _ => some id
  | _ => none

/-- The call has only fewer channels to close, and registers nothing any more. -/
structure Follows (t t' : Call) : Prop where
  out : t'.out = t.out ∨ t'.out = none
  unlisted : t'.unlisted = none
  sends : t'.sends = none
  registers : t'.registers = none
  streams : t'.streams = none

end Call

/-- What a call can do. -/
inductive CallMove (w : World) : Call → World → Call → Prop
  | look {t t' : Call} (h : t.Follows t') : CallMove w t w t'
  | receive {t t' : Call} (ch : ChanId) (h : t.Follows t') : CallMove w t (w.receive ch) t'
  | forget {t t' : Call} (c : ConnId) (id : String) (h : t.Follows t') : CallMove w t (w.forget c id) t'
  | stopFlow {t t' : Call} (id : String) (h : t.Follows t') : CallMove w t (w.stopFlow id) t'
  | register {c : ConnId} {id : String} {listing : Bool} {conn : Conn} {pending : Pending}
      (hconn : w.conns[c]? = some conn) (hpending : conn.pending = some pending) :
      CallMove w (.found c id listing)
        { w.register c conn pending id w.chans.length with chans := w.chans ++ [.make 1] }
        (.sending c id listing w.chans.length)
  | registerStream {c : ConnId} {id : String} {conn : Conn} {pending : Pending}
      (hconn : w.conns[c]? = some conn) (hpending : conn.pending = some pending) :
      CallMove w (.streaming c id)
        { w.register c conn pending id w.chans.length with
          chans := w.chans ++ [.make 64, .make 1, .make 0] }
        (.registered c id w.chans.length (w.chans.length + 1) (w.chans.length + 2))
  | list {c : ConnId} {id : String} {ch out stop : ChanId} :
      CallMove w (.registered c id ch out stop) { w with flowStops := w.flowStops.insert id stop }
        (.opening c id ch out stop)
  | fail {c : ConnId} {id text : String} {ch out stop : ChanId} (h : (w.pendingChan c id).isSome) :
      CallMove w (.opening c id ch out stop) ((w.forget c id).close ch) (.failing id text)
  | finish {c : ConnId} {id : String} {ch out stop : ChanId} {p : Pump} :
      CallMove w (.pumping c id ch out stop p) (w.close out) (.done .nothing)
  | handOver {c : ConnId} {id : String} {ch out stop : ChanId} {p p' : Pump} (m : Msg) :
      CallMove w (.pumping c id ch out stop p) (w.send out m) (.pumping c id ch out stop p')

theorem follows_done (t : Call) (answer : Answer) : t.Follows (.done answer) :=
  ⟨.inr rfl, rfl, rfl, rfl, rfl⟩

theorem follows_leaving (t : Call) (c : ConnId) (id : String) (answer : Answer) :
    t.Follows (.leaving c id answer) :=
  ⟨.inr rfl, rfl, rfl, rfl, rfl⟩

theorem follows_pumping {t : Call} {out : ChanId} (h : t.out = some out) (c : ConnId) (id : String)
    (ch stop : ChanId) (p : Pump) : t.Follows (.pumping c id ch out stop p) :=
  ⟨.inl h.symm, rfl, rfl, rfl, rfl⟩

theorem follows_received (t : Call) (c : ConnId) (id : String) (listing : Bool) (ch : ChanId)
    (parts : List String) (m : Msg) : t.Follows (received c id listing ch parts m) := by
  rw [received]
  split
  · split
    · exact ⟨.inr rfl, rfl, rfl, rfl, rfl⟩
    · exact follows_leaving t c id _
  · exact follows_leaving t c id _

/-- **What a call can do.** -/
theorem callStep_cases {w w' : World} {t t' : Call} {a : Move}
    (h : callStep w t a = some (w', t')) : CallMove w t w' t' := by
  revert h
  fun_cases callStep w t a <;> intro h
  · -- `SendRequest` registers its channel.
    obtain ⟨conn, hconn, h⟩ := map_eq_some_iff.mp h
    split at h <;> cases h
    · exact .look (follows_done _ _)
    · exact .register hconn ‹_›
  · obtain ⟨conn, hconn, h⟩ := map_eq_some_iff.mp h
    split at h <;> cases h
    · exact .look ⟨.inr rfl, rfl, rfl, rfl, rfl⟩
    · exact .look (follows_leaving _ _ _ _)
  · obtain ⟨conn, hconn, h⟩ := bind_eq_some_iff.mp h
    obtain ⟨next, hnext, h⟩ := map_eq_some_iff.mp h
    split at h <;> cases h
    · exact .receive _ (follows_received _ _ _ _ _ _ _)
    · exact .look (follows_leaving _ _ _ _)
  · obtain ⟨conn, hconn, h⟩ := map_eq_some_iff.mp h
    cases h
    exact .look (follows_leaving _ _ _ _)
  · cases h
    exact .forget _ _ (follows_done _ _)
  · obtain ⟨next, hnext, h⟩ := map_eq_some_iff.mp h
    split at h <;> cases h
    · exact .receive _ ⟨.inr rfl, rfl, rfl, rfl, rfl⟩
    · exact .look ⟨.inr rfl, rfl, rfl, rfl, rfl⟩
  · cases h
    split
    · exact .forget _ _ (follows_done _ _)
    · exact .look (follows_done _ _)
  · obtain ⟨conn, hconn, h⟩ := map_eq_some_iff.mp h
    split at h <;> cases h
    · exact .look (follows_done _ _)
    · exact .registerStream hconn ‹_›
  · cases h
    exact .list
  · obtain ⟨conn, hconn, h⟩ := map_eq_some_iff.mp h
    split at h <;> cases h
    · exact .look (follows_pumping rfl _ _ _ _ _)
    · split
      · exact .fail ‹_›
      · exact .look ⟨.inr rfl, rfl, rfl, rfl, rfl⟩
  · cases h
    exact .stopFlow _ (follows_done _ _)
  · cases h
  · -- The pump takes a message, or finds its channel closed and returns.
    obtain ⟨next, hnext, h⟩ := map_eq_some_iff.mp h
    split at h <;> cases h
    · exact .receive _ (follows_pumping rfl _ _ _ _ _)
    · exact .finish
  · obtain ⟨chan, hchan, h⟩ := bind_eq_some_iff.mp h
    split at h <;> cases h
    exact .finish
  · obtain ⟨m, hm, h⟩ := bind_eq_some_iff.mp h
    obtain ⟨chan, hchan, h⟩ := bind_eq_some_iff.mp h
    split at h <;> cases h
    exact .handOver m
  · cases h
    exact .stopFlow _ ⟨.inr rfl, rfl, rfl, rfl, rfl⟩
  · cases h
    split
    · exact .look ⟨.inr rfl, rfl, rfl, rfl, rfl⟩
    · exact .look (follows_done _ _)
  · cases h
    exact .forget _ _ (follows_done _ _)
  · cases h

end Dylaris.Registry
