import Dylaris.Library.Owned
import Dylaris.Library.Places
import Dylaris.Registry.Steps

/-!
# Who closes a channel

A channel of Core has at most one owner, which is the one to close it: the pending request that leads to
it, the call whose pump feeds it, the call that has made it as a stop, or the map of stops.  Every close in
`core/grpc/registry.go` takes a channel from its owner, with one exception: where its `Send` fails,
`SendRequestStreaming` looks for a pending request under its id and then closes its own channel.  That is
the same channel because nothing else is registered under the id of a streaming request (`Sound.mine`).
-/

set_option autoImplicit false

namespace Dylaris.Registry

open List Option AList Machine Places

/-- What can own a channel. -/
inductive Owner
  /-- A pending request of a connection. -/
  | entry (c : ConnId) (id : String)
  /-- A call that feeds a reader. -/
  | reader (n : Nat)
  /-- A call that has made a stop and not yet listed it. -/
  | stopper (n : Nat)
  /-- The map of stops. -/
  | stop (id : String)
deriving DecidableEq

namespace World

variable {w w' : World}

/-- The channel of an owner. -/
def owns (w : World) : Owner → Option ChanId
  | .entry c id => w.pendingChan c id
  | .reader n => (w.calls[n]?).bind Call.out
  | .stopper n => (w.calls[n]?).bind Call.unlisted
  | .stop id => w.flowStops.lookup id

/-- How often a channel has been closed. -/
def closes (w : World) (ch : ChanId) : Nat := (w.chans[ch]?).elim 0 Chan.closes

/-- What has been sent on a channel after it was closed. -/
def lateSends (w : World) (ch : ChanId) : Nat := (w.chans[ch]?).elim 0 Chan.lateSends

/-- The ids of the calls. -/
structure Ids (w : World) : Prop where
  streamed : ∀ {n : Nat} {t : Call} {id}, w.calls[n]? = some t → t.streams = some id → id ∈ w.streamed
  plain : ∀ {n : Nat} {t : Call} {id}, w.calls[n]? = some t → t.registers = some id → id ∈ w.plain
  once : ∀ {n m : Nat} {t t' : Call} {id}, w.calls[n]? = some t → w.calls[m]? = some t' →
    t.streams = some id → t'.streams = some id → n = m
  disjoint : ∀ {id}, id ∈ w.streamed → id ∉ w.plain

/-- The invariant. -/
structure Sound (w : World) : Prop where
  ids : w.Ids
  owned : Owned.Sound w.owns w.closes w.chans.length
  late : ∀ ch, w.lateSends ch = 0
  /-- What is pending under the id of a streaming request that has not been sent is its own channel. -/
  mine : ∀ {n : Nat} {t : Call} {c id ch ch'}, w.calls[n]? = some t → t.sends = some (c, id, ch) →
    w.pendingChan c id = some ch' → ch' = ch

/-! ## What the operations do to the owners -/

variable {c : ConnId} {conn : Conn}

theorem pendingChan_of_getElem? (h : w.conns[c]? = some conn) (id : String) :
    w.pendingChan c id = conn.pending.bind (AList.lookup id) := by
  rw [pendingChan, h, bind_some]

theorem pendingChan_setConn (hc : c < w.conns.length) (conn : Conn) (d : ConnId) (id : String) :
    (w.setConn c conn).pendingChan d id =
      if d = c then conn.pending.bind (AList.lookup id) else w.pendingChan d id := by
  by_cases h : d = c
  · subst h
    have hget : (w.setConn d conn).conns[d]? = some conn := getElem?_set_self hc
    rw [if_pos rfl, pendingChan_of_getElem? hget]
  · rw [if_neg h, pendingChan, setConn, getElem?_set_ne (Ne.symm h), pendingChan]

theorem pendingChan_forget (c d : ConnId) (id id' : String) :
    (w.forget c id).pendingChan d id' = if d = c ∧ id' = id then none else w.pendingChan d id' := by
  rw [forget]
  cases hconn : w.conns[c]? with
  | none =>
    show w.pendingChan d id' = _
    split
    · rename_i h
      rw [h.1, pendingChan, hconn, bind_none]
    · rfl
  | some conn =>
    show (w.setConn c { conn with pending := conn.pending.map (AList.erase id) }).pendingChan d id' = _
    rw [pendingChan_setConn (List.getElem?_eq_some_iff.mp hconn).1]
    by_cases hd : d = c
    · subst hd
      rw [if_pos rfl, pendingChan_of_getElem? hconn]
      by_cases hid : id' = id
      · subst hid
        cases hpending : conn.pending <;> simp
      · cases hpending : conn.pending <;> simp [hid]
    · rw [if_neg hd, if_neg (fun h ↦ hd h.1)]

variable {pending : Pending}

theorem pendingChan_register
    (hconn : w.conns[c]? = some conn) (hpending : conn.pending = some pending) (d : ConnId)
    (id id' : String) (ch : ChanId) :
    (w.register c conn pending id ch).pendingChan d id' =
      if d = c ∧ id' = id then some ch else w.pendingChan d id' := by
  rw [register, pendingChan_setConn (List.getElem?_eq_some_iff.mp hconn).1]
  by_cases hd : d = c
  · subst hd
    rw [if_pos rfl, pendingChan_of_getElem? hconn, hpending, bind_some, bind_some]
    by_cases hid : id' = id
    · subst hid
      rw [if_pos ⟨rfl, rfl⟩, lookup_insert]
    · rw [if_neg (fun h ↦ hid h.2), lookup_insert_ne hid]
  · rw [if_neg hd, if_neg (fun h ↦ hd h.1)]

variable {id : String} {ch : ChanId}

/-- A pending request that was not made by `forget` was there before. -/
theorem pendingChan_of_forget {d : ConnId} {id' : String}
    (h : (w.forget c id).pendingChan d id' = some ch) : w.pendingChan d id' = some ch := by
  rw [pendingChan_forget] at h
  split at h
  · cases h
  · exact h

/-! ### Channels -/

theorem closes_close (h : ch < w.chans.length) (a : ChanId) :
    (w.close ch).closes a = if a = ch then w.closes a + 1 else w.closes a := by
  rw [closes, closes, close, getElem?_modify]
  by_cases ha : a = ch
  · subst ha
    simp [getElem?_eq_getElem h, Chan.close]
  · simp [ha, Ne.symm ha]

/-- What is done to one channel and leaves its late sends. -/
theorem lateSends_modify (ch : ChanId) (f : Chan → Chan) (hf : ∀ c, (f c).lateSends = c.lateSends)
    (a : ChanId) : { w with chans := w.chans.modify ch f }.lateSends a = w.lateSends a := by
  rw [lateSends, lateSends, getElem?_modify]
  cases w.chans[a]? with
  | none => rfl
  | some c =>
    show Chan.lateSends (ite _ _ _) = _
    split
    · exact hf c
    · rfl

@[simp] theorem lateSends_close (ch a : ChanId) : (w.close ch).lateSends a = w.lateSends a :=
  lateSends_modify ch Chan.close (fun _ ↦ rfl) a

theorem closes_modify (ch : ChanId) (f : Chan → Chan) (hf : ∀ c, (f c).closes = c.closes) (a : ChanId) :
    { w with chans := w.chans.modify ch f }.closes a = w.closes a := by
  rw [closes, closes, getElem?_modify]
  cases w.chans[a]? with
  | none => rfl
  | some c =>
    show Chan.closes (ite _ _ _) = _
    split
    · exact hf c
    · rfl

theorem length_close (ch : ChanId) : (w.close ch).chans.length = w.chans.length := List.length_modify ..

/-- Closing channels one after the other. -/
theorem foldl_close (l : List ChanId) (hl : ∀ ch ∈ l, ch < w.chans.length) :
    (l.foldl close w).chans.length = w.chans.length ∧
      ∀ a, (l.foldl close w).closes a = w.closes a + l.count a ∧
        (l.foldl close w).lateSends a = w.lateSends a := by
  induction l generalizing w with
  | nil => exact ⟨rfl, fun a ↦ ⟨rfl, rfl⟩⟩
  | cons ch l ih =>
    obtain ⟨hlen, hchans⟩ := ih (w := w.close ch) fun a ha ↦ by
      rw [length_close]
      exact hl a (mem_cons_of_mem _ ha)
    refine ⟨hlen.trans (length_close ch), fun a ↦ ?_⟩
    rw [foldl_cons, (hchans a).1, (hchans a).2, closes_close (hl ch mem_cons_self), lateSends_close,
      count_cons]
    refine ⟨?_, rfl⟩
    by_cases ha : a = ch
    · subst ha
      simp only [if_pos, beq_self_eq_true]
      omega
    · simp [ha, Ne.symm ha]

/-! ## What the operations keep -/

/-- The calls of a world, and what has been drawn for them, are those of another. -/
structure SameCalls (w w' : World) : Prop where
  calls : w'.calls = w.calls
  streamed : w'.streamed = w.streamed
  plain : w'.plain = w.plain

theorem Ids.congr (h : w.Ids) (hsame : SameCalls w w') : w'.Ids where
  streamed hn := by
    rw [hsame.calls] at hn
    rw [hsame.streamed]
    exact h.streamed hn
  plain hn := by
    rw [hsame.calls] at hn
    rw [hsame.plain]
    exact h.plain hn
  once hn hm := by
    rw [hsame.calls] at hn hm
    exact h.once hn hm
  disjoint hid := by
    rw [hsame.streamed] at hid
    rw [hsame.plain]
    exact h.disjoint hid

/-- **Pending requests and stops go.**  The channels that are closed are some of those they led to. -/
theorem Sound.drop (h : w.Sound) (hsame : SameCalls w w')
    (hpending : ∀ c id ch, w'.pendingChan c id = some ch → w.pendingChan c id = some ch)
    (hstops : ∀ id stop, w'.flowStops.lookup id = some stop → w.flowStops.lookup id = some stop)
    (hcloses : (∀ i a, w'.owns i = some a → w.owns i = some a) →
      Owned.ClosesOwned w.owns w'.owns w.closes w'.closes)
    (hlen : w'.chans.length = w.chans.length) (hlate : ∀ ch, w'.lateSends ch = w.lateSends ch) :
    w'.Sound where
  ids := h.ids.congr hsame
  owned := by
    have hsub : ∀ i a, w'.owns i = some a → w.owns i = some a := by
      intro i a hi
      cases i with
      | entry c id => exact hpending c id a hi
      | reader n => rwa [owns, hsame.calls] at hi
      | stopper n => rwa [owns, hsame.calls] at hi
      | stop id => exact hstops id a hi
    rw [hlen]
    exact h.owned.drop hsub (hcloses hsub)
  late ch := (hlate ch).trans (h.late ch)
  mine hn hsends hch := by
    rw [hsame.calls] at hn
    exact h.mine hn hsends (hpending _ _ _ hch)

/-- Something is done to one channel that neither closes it nor counts as a late send. -/
theorem Sound.modify (h : w.Sound) (ch : ChanId) (f : Chan → Chan)
    (hcloses : ∀ c, (f c).closes = c.closes)
    (hlate : ∀ a, { w with chans := w.chans.modify ch f }.lateSends a = w.lateSends a) :
    { w with chans := w.chans.modify ch f }.Sound :=
  h.drop ⟨rfl, rfl, rfl⟩ (fun _ _ _ h ↦ h) (fun _ _ h ↦ h)
    (fun _ a ↦ .inl (closes_modify ch f hcloses a)) (length_modify ..) hlate

theorem Sound.receive (h : w.Sound) (ch : ChanId) : (w.receive ch).Sound :=
  h.modify ch Chan.receive (fun _ ↦ rfl) (lateSends_modify ch Chan.receive fun _ ↦ rfl)

/-- A send on a channel that has an owner. -/
theorem Sound.send (h : w.Sound) {i : Owner} (hi : w.owns i = some ch) (m : Msg) :
    (w.send ch m).Sound := by
  refine h.modify ch (fun c ↦ c.send m) (fun c ↦ ?_) fun a ↦ ?_
  · rw [Chan.send]
    split <;> rfl
  have hopen := h.owned.isOpen hi
  rw [lateSends, lateSends, getElem?_modify]
  cases ha : w.chans[a]? with
  | none => rfl
  | some c =>
    by_cases hch : ch = a
    · subst hch
      rw [closes, ha] at hopen
      have : c.closed = false := by simpa [Chan.closed] using hopen
      simp [Chan.send, this]
    · simp [hch]

/-- `forget` touches the connections only. -/
theorem forget_eq (c : ConnId) (id : String) : w.forget c id = { w with conns := (w.forget c id).conns } := by
  rw [World.forget]
  split <;> rfl

section

variable (h : w.Sound)

include h

theorem Sound.forget (c : ConnId) (id : String) : (w.forget c id).Sound := by
  have hpending : ∀ d id' ch, (w.forget c id).pendingChan d id' = some ch →
      w.pendingChan d id' = some ch :=
    fun d id' ch ↦ pendingChan_of_forget
  rw [forget_eq] at hpending ⊢
  exact h.drop ⟨rfl, rfl, rfl⟩ hpending (fun _ _ h ↦ h) (fun _ _ ↦ .inl rfl) rfl fun _ ↦ rfl

/-- A pending request goes and its channel is closed. -/
theorem Sound.closeEntry
    (hch : w.pendingChan c id = some ch) : ((w.close ch).forget c id).Sound := by
  have hlt : ch < w.chans.length := h.owned.lt (i := .entry c id) hch
  have hpending : ∀ d id' a, ((w.close ch).forget c id).pendingChan d id' = some a →
      w.pendingChan d id' = some a := fun d id' a ↦ pendingChan_of_forget (w := w.close ch)
  have hnone : ((w.close ch).forget c id).owns (.entry c id) = none :=
    (pendingChan_forget c c id id).trans (if_pos ⟨rfl, rfl⟩)
  rw [forget_eq] at hpending hnone ⊢
  refine h.drop ⟨rfl, rfl, rfl⟩ hpending (fun _ _ h ↦ h) (fun hsub ↦ ?_) (length_close ch)
    (lateSends_close ch)
  exact Owned.closesOwned_of_one (i := .entry c id) hch
    (h.owned.not_owned hsub (i := .entry c id) hch hnone) (closes_close hlt)

theorem Sound.closeStreamingRequest (c : ConnId) (id : String) :
    (w.closeStreamingRequest c id).Sound := by
  rw [World.closeStreamingRequest]
  split
  · rename_i ch hch
    exact h.closeEntry hch
  · exact h

theorem Sound.routeResponse (c : ConnId) (m : Msg) (expired : Bool) :
    (w.routeResponse c m expired).Sound := by
  rw [World.routeResponse]
  split
  · rename_i ch hch
    split
    · split
      · exact h.send (i := .entry c m.requestID) hch m
      · split
        · exact h.closeEntry hch
        · exact h
    · exact h
  · exact h

theorem Sound.stopFlow (id : String) : (w.stopFlow id).Sound := by
  rw [World.stopFlow]
  split
  · rename_i stop hstop
    have hsub : ∀ id' a, (w.flowStops.erase id).lookup id' = some a →
        w.flowStops.lookup id' = some a := by
      intro id' a ha
      by_cases hid : id' = id
      · subst hid
        rw [lookup_erase] at ha
        cases ha
      · rwa [lookup_erase_ne hid] at ha
    refine h.drop ⟨rfl, rfl, rfl⟩ (fun _ _ _ h ↦ h) hsub (fun hsub ↦ ?_) (length_close stop)
      (lateSends_close stop)
    refine Owned.closesOwned_of_one (i := .stop id) hstop
      (h.owned.not_owned hsub (i := .stop id) hstop (lookup_erase _ _)) fun a ↦ ?_
    exact closes_close (h.owned.lt (i := .stop id) hstop) a
  · exact h

end

/-! ### A connection is torn down -/

theorem foldl_close_eq (l : List ChanId) : l.foldl close w = { w with chans := (l.foldl close w).chans } := by
  induction l generalizing w with
  | nil => rfl
  | cons ch l ih => exact ih

/-- The channels of the pending requests are those the map leads to. -/
theorem mem_chans {p : Pending} : ch ∈ p.chans ↔ ∃ id, p.lookup id = some ch := by
  rw [Pending.chans, List.mem_map]
  constructor
  · rintro ⟨⟨id, ch⟩, hmem, rfl⟩
    exact ⟨id, mem_lookup_iff.mpr hmem⟩
  · rintro ⟨id, hid⟩
    exact ⟨⟨id, ch⟩, mem_lookup_iff.mp hid, rfl⟩

theorem nodup_chans {p : Pending}
    (hinj : ∀ id id' ch, p.lookup id = some ch → p.lookup id' = some ch → id = id') :
    p.chans.Nodup := by
  refine List.Nodup.map_on ?_ p.nodupKeys.nodup
  rintro ⟨id, ch⟩ hmem ⟨id', ch'⟩ hmem' (rfl : ch = ch')
  rw [hinj id id' ch (mem_lookup_iff.mpr hmem) (mem_lookup_iff.mpr hmem')]

section

variable (h : w.Sound)

include h

/-- A connection's requests go, and their channels are closed. -/
theorem Sound.tearDown {conn' : Conn} (hconn : w.conns[c]? = some conn)
    (hnone : conn'.pending = none) : ((w.tearDown c conn).setConn c conn').Sound := by
  have hc := (List.getElem?_eq_some_iff.mp hconn).1
  let chans := (conn.pending.getD ∅).chans
  have howner : ∀ a id, (conn.pending.getD ∅).lookup id = some a → w.owns (.entry c id) = some a := by
    intro a id hid
    rw [owns, pendingChan_of_getElem? hconn]
    cases hpending : conn.pending with
    | none => simp [hpending] at hid
    | some pending => simpa [hpending] using hid
  have hmem : ∀ a ∈ chans, ∃ id, w.owns (.entry c id) = some a := fun a ha ↦ by
    obtain ⟨id, hid⟩ := mem_chans.mp ha
    exact ⟨id, howner a id hid⟩
  have hnodup : chans.Nodup := nodup_chans fun id id' a hid hid' ↦ by
    have := h.owned.inj (howner a id hid) (howner a id' hid')
    simpa using this
  obtain ⟨hlen, hchans⟩ := foldl_close chans fun a ha ↦ by
    obtain ⟨id, hid⟩ := hmem a ha
    exact h.owned.lt hid
  have hpending : ∀ d id, ((w.tearDown c conn).setConn c conn').pendingChan d id =
      if d = c then none else w.pendingChan d id := by
    intro d id
    have := pendingChan_setConn hc conn' d id
    rw [hnone, bind_none] at this
    rw [← this, pendingChan, pendingChan, setConn, setConn, World.tearDown]
    simp
  have hcalls : SameCalls w (chans.foldl close w) := by
    rw [foldl_close_eq]
    exact ⟨rfl, rfl, rfl⟩
  have hstops : (chans.foldl close w).flowStops = w.flowStops := by rw [foldl_close_eq]
  refine h.drop ⟨hcalls.calls, hcalls.streamed, hcalls.plain⟩ (fun d id a hd ↦ ?_) (fun id a hid ↦ ?_)
    (fun hsub a ↦ ?_) hlen fun a ↦ (hchans a).2
  · rw [hpending] at hd
    split at hd
    · cases hd
    · exact hd
  · exact hstops ▸ hid
  · by_cases ha : a ∈ chans
    · obtain ⟨id, hid⟩ := hmem a ha
      refine .inr ⟨?_, ⟨_, hid⟩, h.owned.not_owned hsub hid ((hpending c id).trans (if_pos rfl))⟩
      exact (hchans a).1.trans (by rw [count_eq_one_of_mem hnodup ha])
    · exact .inl ((hchans a).1.trans (by rw [count_eq_zero_of_not_mem ha, Nat.add_zero]))

/-- A connection is replaced by one with the same requests or with fewer. -/
theorem Sound.setConn (hc : c < w.conns.length)
    (hsub : ∀ id ch, conn.pending.bind (AList.lookup id) = some ch → w.pendingChan c id = some ch) :
    (w.setConn c conn).Sound := by
  refine h.drop ⟨rfl, rfl, rfl⟩ (fun d id ch hd ↦ ?_) (fun _ _ h ↦ h) (fun _ _ ↦ .inl rfl) rfl
    fun _ ↦ rfl
  rw [pendingChan_setConn hc] at hd
  split at hd
  · rename_i hdc
    rw [hdc]
    exact hsub id ch hd
  · exact hd

/-- The registry's map is not looked at. -/
theorem Sound.setEntry (entry : Nat → Option ConnId) : { w with entry := entry }.Sound :=
  h.drop ⟨rfl, rfl, rfl⟩ (fun _ _ _ h ↦ h) (fun _ _ h ↦ h) (fun _ _ ↦ .inl rfl) rfl fun _ ↦ rfl

theorem Sound.addConn (hempty : conn.pending = some ∅) :
    { w with conns := w.conns ++ [conn] }.Sound := by
  refine h.drop ⟨rfl, rfl, rfl⟩ (fun d id ch hd ↦ ?_) (fun _ _ h ↦ h) (fun _ _ ↦ .inl rfl) rfl
    fun _ ↦ rfl
  obtain ⟨conn', hconn', hid⟩ := bind_eq_some_iff.mp hd
  rcases getElem?_append_singleton hconn' with hold | ⟨-, rfl⟩
  · rw [pendingChan_of_getElem? hold, hid]
  · simp [hempty] at hid

theorem Sound.registerProved (node : Nat) (authKey : Option (List UInt8)) :
    (w.registerProved node authKey).Sound := by
  rw [World.registerProved]
  split
  · rename_i old oldConn hold
    obtain ⟨old', _, hold⟩ := bind_eq_some_iff.mp hold
    obtain ⟨conn, hconn, heq⟩ := map_eq_some_iff.mp hold
    cases heq
    exact ((h.tearDown hconn rfl).addConn rfl).setEntry _
  · exact (h.addConn rfl).setEntry _

theorem Sound.unregister (hconn : w.conns[c]? = some conn) :
    (w.unregister c conn).Sound := by
  have hc := (List.getElem?_eq_some_iff.mp hconn).1
  rw [World.unregister]
  split
  · have htorn : ((w.tearDown c conn).setConn c
        { conn with ended := true, replaced := none, pending := none }).Sound := h.tearDown hconn rfl
    split
    · rename_i prev prevConn hres
      obtain ⟨hprev, _⟩ := filter_eq_some_iff.mp hres
      obtain ⟨p, _, hprev⟩ := bind_eq_some_iff.mp hprev
      obtain ⟨conn', hconn', heq⟩ := map_eq_some_iff.mp hprev
      cases heq
      refine (htorn.setConn ?_ fun id ch hid ↦ ?_).setEntry _
      · simpa [World.setConn, World.tearDown] using (List.getElem?_eq_some_iff.mp hconn').1
      · simp at hid
    · exact htorn.setEntry _
  · refine h.setConn hc fun id ch hid ↦ ?_
    rw [pendingChan_of_getElem? hconn]
    exact hid

end

/-! ### Calls -/

variable {t : Call}

theorem streams_of_sends (h : t.sends = some (c, id, ch)) : t.streams = some id := by
  cases t <;> simp_all [Call.sends, Call.streams]

variable {n : Nat} {t' : Call}

/-- The ids are kept by a call that registers nothing new. -/
theorem Ids.setCall (h : w.Ids) (hn : w.calls[n]? = some t)
    (hstreams : ∀ id, t'.streams = some id → t.streams = some id)
    (hregisters : ∀ id, t'.registers = some id → t.registers = some id) :
    { w with calls := w.calls.set n t' }.Ids where
  streamed hm hid := by
    obtain ⟨rfl, rfl⟩ | ⟨_, hm⟩ := getElem?_set hm
    · exact h.streamed hn (hstreams _ hid)
    · exact h.streamed hm hid
  plain hm hid := by
    obtain ⟨rfl, rfl⟩ | ⟨_, hm⟩ := getElem?_set hm
    · exact h.plain hn (hregisters _ hid)
    · exact h.plain hm hid
  once hm hm' hid hid' := by
    obtain ⟨rfl, rfl⟩ | ⟨_, hold⟩ := getElem?_set hm
    · obtain ⟨rfl, rfl⟩ | ⟨_, hold'⟩ := getElem?_set hm'
      · rfl
      · exact h.once hn hold' (hstreams _ hid) hid'
    · obtain ⟨rfl, rfl⟩ | ⟨_, hold'⟩ := getElem?_set hm'
      · exact h.once hold hn hid (hstreams _ hid')
      · exact h.once hold hold' hid hid'
  disjoint := h.disjoint

theorem owns_of_follows (hn : w.calls[n]? = some t) (hfollows : t.Follows t') (i : Owner)
    (a : ChanId) (hi : { w with calls := w.calls.set n t' }.owns i = some a) : w.owns i = some a := by
  cases i with
  | entry c id => exact hi
  | reader m =>
    obtain ⟨u, hm, hu⟩ := bind_eq_some_iff.mp hi
    obtain ⟨rfl, rfl⟩ | ⟨_, hm⟩ := getElem?_set hm
    · rw [owns, hn, bind_some]
      rcases hfollows.out with hout | hout
      · rw [← hout, hu]
      · rw [hout] at hu
        cases hu
    · rw [owns, hm, bind_some, hu]
  | stopper m =>
    obtain ⟨u, hm, hu⟩ := bind_eq_some_iff.mp hi
    obtain ⟨rfl, rfl⟩ | ⟨_, hm⟩ := getElem?_set hm
    · rw [hfollows.unlisted] at hu
      cases hu
    · rw [owns, hm, bind_some, hu]
  | stop id => exact hi

section

variable (h : w.Sound)

include h

/-- **A call goes on and has only fewer channels to close.** -/
theorem Sound.follow (hn : w.calls[n]? = some t) (hfollows : t.Follows t') :
    { w with calls := w.calls.set n t' }.Sound where
  ids := h.ids.setCall hn (by simp [hfollows.streams]) (by simp [hfollows.registers])
  owned := h.owned.drop (owns_of_follows hn hfollows) fun _ ↦ .inl rfl
  late := h.late
  mine hm hsends hch := by
    obtain ⟨rfl, rfl⟩ | ⟨_, hm⟩ := getElem?_set hm
    · rw [hfollows.sends] at hsends
      cases hsends
    · exact h.mine hm hsends hch

/-- The pump closes the channel of its reader and returns. -/
theorem Sound.finish {out : ChanId} (hn : w.calls[n]? = some t)
    (hout : t.out = some out) (answer : Answer) :
    { w.close out with calls := w.calls.set n (.done answer) }.Sound := by
  have hfollow := h.follow hn (follows_done t answer)
  have hsub := owns_of_follows hn (follows_done t answer)
  have hreader : w.owns (.reader n) = some out := by rw [owns, hn, bind_some, hout]
  have hgone : { w with calls := w.calls.set n (.done answer) }.owns (.reader n) = none := by
    rw [owns, getElem?_set_self hn]
    rfl
  have howned : Owned.Sound _ (w.close out).closes _ := h.owned.drop hsub <|
    Owned.closesOwned_of_one hreader (h.owned.not_owned hsub hreader hgone)
      (closes_close (h.owned.lt hreader))
  rw [← length_close out] at howned
  exact ⟨hfollow.ids.congr ⟨rfl, rfl, rfl⟩, howned,
    fun ch ↦ (lateSends_close out ch).trans (h.late ch), hfollow.mine⟩

/-- The pump's stop goes into the map of stops. -/
theorem Sound.list {out stop : ChanId}
    (hn : w.calls[n]? = some (.registered c id ch out stop)) :
    { w with
      flowStops := w.flowStops.insert id stop
      calls := w.calls.set n (.opening c id ch out stop) }.Sound where
  ids := by
    have hids : { w with calls := w.calls.set n (.opening c id ch out stop) }.Ids :=
      h.ids.setCall hn (fun _ h ↦ h) (fun _ h ↦ h)
    exact hids.congr ⟨rfl, rfl, rfl⟩
  owned := by
    -- The map has the stop from the call.
    refine h.owned.rename (fun i ↦ if i = .stop id then .stopper n else i) (fun i a hi ↦ ?_)
      (fun i j a hi hj hij ↦ ?_) fun _ ↦ .inl rfl
    · cases i with
      | entry d id' => exact hi
      | reader m =>
        obtain ⟨u, hm, hu⟩ := bind_eq_some_iff.mp hi
        obtain ⟨rfl, rfl⟩ | ⟨_, hm⟩ := getElem?_set hm
        · show (w.calls[m]?).bind Call.out = some a
          rw [hn, bind_some]
          exact hu
        · show (w.calls[m]?).bind Call.out = some a
          rw [hm, bind_some, hu]
      | stopper m =>
        obtain ⟨u, hm, hu⟩ := bind_eq_some_iff.mp hi
        obtain ⟨rfl, rfl⟩ | ⟨_, hm⟩ := getElem?_set hm
        · cases hu
        · show (w.calls[m]?).bind Call.unlisted = some a
          rw [hm, bind_some, hu]
      | stop id' =>
        by_cases hid : id' = id
        · subst hid
          rw [owns, lookup_insert, some_inj] at hi
          rw [if_pos rfl, owns, hn, bind_some, Call.unlisted, hi]
        · rw [owns, lookup_insert_ne hid] at hi
          rw [if_neg (by simpa using hid), owns, hi]
    · have hopening : ∀ {k}, k ≠ .stop id → { w with
          flowStops := w.flowStops.insert id stop
          calls := w.calls.set n (.opening c id ch out stop) }.owns k = some a → k ≠ .stopper n := by
        rintro k hk hka rfl
        rw [owns, getElem?_set_self hn, bind_some] at hka
        cases hka
      by_cases hi' : i = .stop id
      · by_cases hj' : j = .stop id
        · rw [hi', hj']
        · rw [if_pos hi', if_neg hj'] at hij
          exact absurd hij.symm (hopening hj' hj)
      · by_cases hj' : j = .stop id
        · rw [if_neg hi', if_pos hj'] at hij
          exact absurd hij (hopening hi' hi)
        · rwa [if_neg hi', if_neg hj'] at hij
  late := h.late
  mine hm hsends hch := by
    obtain ⟨rfl, rfl⟩ | ⟨_, hm⟩ := getElem?_set hm
    · exact h.mine hn hsends hch
    · exact h.mine hm hsends hch

/-! ### New calls -/

/-- An id is drawn for a request that is not streamed. -/
theorem Sound.drawPlain (hid : id ∉ w.streamed) :
    { w with plain := id :: w.plain }.Sound where
  ids := {
    streamed := h.ids.streamed
    plain := fun hn hr ↦ List.mem_cons_of_mem _ (h.ids.plain hn hr)
    once := h.ids.once
    disjoint := fun {id'} hs hp ↦ by
      rcases List.mem_cons.mp hp with rfl | hp
      · exact hid hs
      · exact h.ids.disjoint hs hp }
  owned := h.owned
  late := h.late
  mine := h.mine

/-- An id is drawn for a streaming request. -/
theorem Sound.drawStreamed (hid : id ∉ w.plain) :
    { w with streamed := id :: w.streamed }.Sound where
  ids := {
    streamed := fun hn hs ↦ List.mem_cons_of_mem _ (h.ids.streamed hn hs)
    plain := h.ids.plain
    once := h.ids.once
    disjoint := fun {id'} hs hp ↦ by
      rcases List.mem_cons.mp hs with rfl | hs
      · exact hid hp
      · exact h.ids.disjoint hs hp }
  owned := h.owned
  late := h.late
  mine := h.mine

/-- A call is made that has no channel yet. -/
theorem Sound.addCall (hout : t.out = none) (hunlisted : t.unlisted = none)
    (hsends : t.sends = none) (hregisters : ∀ id, t.registers = some id → id ∈ w.plain)
    (hstreams : ∀ id, t.streams = some id →
      id ∈ w.streamed ∧ ∀ (n : Nat) (u : Call), w.calls[n]? = some u → u.streams ≠ some id) :
    (w.addCall t).Sound where
  ids := {
    streamed := fun hn hs ↦ by
      obtain hn | ⟨_, rfl⟩ := getElem?_append_singleton hn
      · exact h.ids.streamed hn hs
      · exact (hstreams _ hs).1
    plain := fun hn hr ↦ by
      obtain hn | ⟨_, rfl⟩ := getElem?_append_singleton hn
      · exact h.ids.plain hn hr
      · exact hregisters _ hr
    once := fun hn hm hs hs' ↦ by
      obtain hold | ⟨rfl, rfl⟩ := getElem?_append_singleton hn
      · obtain hold' | ⟨rfl, rfl⟩ := getElem?_append_singleton hm
        · exact h.ids.once hold hold' hs hs'
        · exact absurd hs ((hstreams _ hs').2 _ _ hold)
      · obtain hold' | ⟨rfl, _⟩ := getElem?_append_singleton hm
        · exact absurd hs' ((hstreams _ hs).2 _ _ hold')
        · rfl
    disjoint := h.ids.disjoint }
  owned := by
    refine h.owned.drop (fun i a hi ↦ ?_) fun _ ↦ .inl rfl
    cases i with
    | entry c id => exact hi
    | reader n =>
      obtain ⟨u, hn, hu⟩ := bind_eq_some_iff.mp hi
      obtain hn | ⟨_, rfl⟩ := getElem?_append_singleton hn
      · rw [owns, hn, bind_some, hu]
      · rw [hout] at hu
        cases hu
    | stopper n =>
      obtain ⟨u, hn, hu⟩ := bind_eq_some_iff.mp hi
      obtain hn | ⟨_, rfl⟩ := getElem?_append_singleton hn
      · rw [owns, hn, bind_some, hu]
      · rw [hunlisted] at hu
        cases hu
    | stop id => exact hi
  late := h.late
  mine hn hs hch := by
    obtain hn | ⟨_, rfl⟩ := getElem?_append_singleton hn
    · exact h.mine hn hs hch
    · rw [hsends] at hs
      cases hs

end

/-! ### New channels -/

/-- What is counted for a channel does not change where new ones are made. -/
theorem elim_append {l : List Chan} {f : Chan → Nat} (hf : ∀ c ∈ l, f c = 0) (a : ChanId) :
    ((w.chans ++ l)[a]?).elim 0 f = (w.chans[a]?).elim 0 f := by
  rcases Nat.lt_or_ge a w.chans.length with hlt | hge
  · rw [getElem?_append_left hlt]
  · rw [getElem?_append_right hge, getElem?_eq_none hge]
    cases hc : l[a - w.chans.length]? with
    | none => rfl
    | some c => exact hf c (mem_of_getElem? hc)

/-- New channels that have not been closed, for owners that had none or let go of theirs. -/
theorem Sound.allocate (h : w.Sound) (w' : World) {l : List Chan} (hchans : w'.chans = w.chans ++ l)
    (hl : ∀ c ∈ l, c.closes = 0 ∧ c.lateSends = 0) (new : List (Owner × Nat))
    (hnew : new.map Prod.snd = List.range' w.chans.length l.length)
    (hsub : ∀ i a, w'.owns i = some a → w.owns i = some a ∨ (i, a) ∈ new) :
    Owned.Sound w'.owns w'.closes w'.chans.length ∧ ∀ ch, w'.lateSends ch = 0 := by
  have hcloses : w'.closes = w.closes := by
    funext a
    rw [closes, hchans]
    exact elim_append (fun c hc ↦ (hl c hc).1) a
  constructor
  · rw [hcloses, hchans, length_append]
    refine h.owned.allocate new (by omega) (fun p hp ↦ ?_) (hnew ▸ nodup_range') hsub
    have := mem_map_of_mem (f := Prod.snd) hp
    rw [hnew, mem_range'_1] at this
    exact this
  · intro ch
    rw [lateSends, hchans]
    exact (elim_append (fun c hc ↦ (hl c hc).2) ch).trans (h.late ch)

/-- `SendRequest` and `AwaitReply` register a channel, under an id that no streaming request has. -/
theorem Sound.register (h : w.Sound)
    (hconn : w.conns[c]? = some conn) (hpending : conn.pending = some pending) (hid : id ∉ w.streamed) :
    { w.register c conn pending id w.chans.length with chans := w.chans ++ [Chan.make 1] }.Sound := by
  have hreg := fun d id' ↦ pendingChan_register hconn hpending d id id' w.chans.length
  obtain ⟨howned, hlate⟩ := h.allocate
    { w.register c conn pending id w.chans.length with chans := w.chans ++ [Chan.make 1] }
    (l := [Chan.make 1]) rfl (by decide) [(.entry c id, w.chans.length)] rfl fun i a hi ↦ by
      cases i with
      | entry d id' =>
        have hi := (hreg d id').symm.trans hi
        split at hi
        · rename_i hd
          rw [hd.1, hd.2, some_inj.mp hi]
          exact .inr mem_cons_self
        · exact .inl hi
      | reader n => exact .inl hi
      | stopper n => exact .inl hi
      | stop id' => exact .inl hi
  refine ⟨h.ids.congr ⟨rfl, rfl, rfl⟩, howned, hlate, fun {n t d id' ch ch'} hn hsends hch ↦ ?_⟩
  have hne : id' ≠ id := by
    rintro rfl
    exact hid (h.ids.streamed hn (streams_of_sends hsends))
  have hch := (hreg d id').symm.trans hch
  rw [if_neg (fun hd ↦ hne hd.2)] at hch
  exact h.mine hn hsends hch

/-- `SendRequestStreaming` registers its channel, and has made those of its pump. -/
theorem Sound.registerStream (h : w.Sound)
    (hn : w.calls[n]? = some (.streaming c id)) (hconn : w.conns[c]? = some conn)
    (hpending : conn.pending = some pending) :
    { w.register c conn pending id w.chans.length with
      chans := w.chans ++ [Chan.make 64, .make 1, .make 0]
      calls := w.calls.set n
        (.registered c id w.chans.length (w.chans.length + 1) (w.chans.length + 2)) }.Sound := by
  have hreg := fun d id' ↦ pendingChan_register hconn hpending d id id' w.chans.length
  have hids : { w with
      calls := w.calls.set n
        (.registered c id w.chans.length (w.chans.length + 1) (w.chans.length + 2)) }.Ids :=
    h.ids.setCall hn (fun _ h ↦ h) (by simp [Call.registers])
  obtain ⟨howned, hlate⟩ := h.allocate
    { w.register c conn pending id w.chans.length with
      chans := w.chans ++ [Chan.make 64, .make 1, .make 0]
      calls := w.calls.set n
        (.registered c id w.chans.length (w.chans.length + 1) (w.chans.length + 2)) }
    (l := [Chan.make 64, .make 1, .make 0]) rfl (by decide)
    [(.entry c id, w.chans.length), (.reader n, w.chans.length + 1), (.stopper n, w.chans.length + 2)] rfl
    fun i a hi ↦ by
      cases i with
      | entry d id' =>
        have hi := (hreg d id').symm.trans hi
        split at hi
        · rename_i hd
          rw [hd.1, hd.2, some_inj.mp hi]
          exact .inr mem_cons_self
        · exact .inl hi
      | reader m | stopper m =>
        obtain ⟨u, hm, hu⟩ := bind_eq_some_iff.mp hi
        obtain ⟨rfl, rfl⟩ | ⟨_, hm⟩ := getElem?_set hm
        · rw [← some_inj.mp hu]
          simp
        · exact .inl (by rw [owns, hm, bind_some, hu])
      | stop id' => exact .inl hi
  refine ⟨hids.congr ⟨rfl, rfl, rfl⟩, howned, hlate, fun {m t d id' ch ch'} hm hsends hch ↦ ?_⟩
  have hpend := (hreg d id').symm.trans hch
  obtain ⟨rfl, rfl⟩ | ⟨hne, hold⟩ := getElem?_set hm
  · cases hsends
    rw [if_pos ⟨rfl, rfl⟩] at hpend
    exact (some_inj.mp hpend).symm
  · have hid : id' ≠ id := by
      rintro rfl
      exact hne (h.ids.once hold hn (streams_of_sends hsends) rfl)
    rw [if_neg (fun hd ↦ hid hd.2)] at hpend
    exact h.mine hold hsends hpend

theorem sound_start : World.start.Sound where
  ids := ⟨by simp [start], by simp [start], by simp [start], by simp [start]⟩
  owned := by
    have hnone : ∀ i, World.start.owns i = none := fun i ↦ by
      cases i <;> simp [owns, pendingChan, start]
    exact ⟨by simp [hnone], by simp [hnone], by simp [hnone], by simp [closes, start],
      by simp [closes, start]⟩
  late := by simp [lateSends, start]
  mine := by simp [start]

/-- **What a call keeps.** -/
theorem Sound.call (h : w.Sound) (hn : w.calls[n]? = some t)
    (hmove : CallMove w t w' t') : { w' with calls := w.calls.set n t' }.Sound := by
  cases hmove with
  | look hf => exact h.follow hn hf
  | receive ch hf => exact (h.receive ch).follow hn hf
  | forget c id hf =>
    have hforget := h.forget c id
    rw [forget_eq] at hforget ⊢
    exact hforget.follow hn hf
  | stopFlow id hf =>
    have hstop := h.stopFlow id
    have hcalls : (w.stopFlow id).calls = w.calls := by
      rw [World.stopFlow]
      split <;> rfl
    rw [← hcalls] at hn ⊢
    exact hstop.follow hn hf
  | @register c id listing conn pending hconn hpending =>
    have hid : id ∉ w.streamed := fun hs ↦ h.ids.disjoint hs (h.ids.plain hn rfl)
    exact (h.register hconn hpending hid).follow hn ⟨.inr rfl, rfl, rfl, rfl, rfl⟩
  | registerStream hconn hpending => exact h.registerStream hn hconn hpending
  | list => exact h.list hn
  | @fail c id text ch out stop hentry =>
    obtain ⟨ch', hch'⟩ := isSome_iff_exists.mp hentry
    obtain rfl := h.mine hn rfl hch'
    have hclose := h.closeEntry hch'
    have hcomm : (w.close ch').forget c id = (w.forget c id).close ch' := by
      rw [World.forget, World.forget]
      dsimp only [World.close]
      cases w.conns[c]? <;> rfl
    rw [hcomm, forget_eq] at hclose
    rw [forget_eq]
    exact hclose.follow hn ⟨.inr rfl, rfl, rfl, rfl, rfl⟩
  | finish => exact h.finish hn rfl _
  | @handOver c id ch out stop p p' m =>
    have hreader : w.owns (.reader n) = some out := by rw [owns, hn]; rfl
    exact (h.send hreader m).follow hn (follows_pumping rfl _ _ _ _ _)

theorem Sound.awaitReply (h : w.Sound) (hconn : w.conns[c]? = some conn)
    (hid : id ∉ w.streamed) : (w.awaitReply c conn id).Sound := by
  rw [World.awaitReply]
  split
  · exact h.addCall rfl rfl rfl (by simp [Call.registers]) (by simp [Call.streams])
  · rename_i pending hpending
    exact (h.register hconn hpending hid).addCall rfl rfl rfl (by simp [Call.registers])
      (by simp [Call.streams])

/-- **What a step of Core keeps.** -/
theorem Sound.step (h : w.Sound) {a : Label} (hstep : w.step a = some w') : w'.Sound := by
  cases a with
  | registerProved node authKey =>
    cases hstep
    exact h.registerProved node authKey
  | unregister c =>
    obtain ⟨conn, hconn, rfl⟩ := map_eq_some_iff.mp hstep
    exact h.unregister hconn
  | routeResponse c m expired =>
    cases hstep
    exact h.routeResponse c m expired
  | closeStreamingRequest c id =>
    cases hstep
    exact h.closeStreamingRequest c id
  | sendRequest node id listing =>
    rw [World.step, ite_none_left_eq_some, some_inj] at hstep
    obtain ⟨hid, rfl⟩ := hstep
    have hdraw := h.drawPlain hid
    split
    · exact hdraw.addCall rfl rfl rfl (by simp [Call.registers]) (by simp [Call.streams])
    · exact hdraw.addCall rfl rfl rfl (by simp [Call.registers]) (by simp [Call.streams])
  | awaitReply c id =>
    rw [World.step, ite_none_left_eq_some] at hstep
    obtain ⟨hid, hstep⟩ := hstep
    obtain ⟨conn, hconn, rfl⟩ := map_eq_some_iff.mp hstep
    exact (h.drawPlain hid).awaitReply hconn hid
  | sendRequestStreaming node id =>
    rw [World.step, ite_none_left_eq_some, some_inj, not_or] at hstep
    obtain ⟨⟨hs, hp⟩, rfl⟩ := hstep
    have hdraw := h.drawStreamed hp
    split
    · refine hdraw.addCall rfl rfl rfl (by simp [Call.registers]) fun id' hid ↦ ?_
      cases hid
      exact ⟨mem_cons_self, fun n u hn hu ↦ hs (h.ids.streamed hn hu)⟩
    · exact hdraw.addCall rfl rfl rfl (by simp [Call.registers]) (by simp [Call.streams])
  | cleanupRequest node id =>
    cases hstep
    exact h.addCall rfl rfl rfl (by simp [Call.registers]) (by simp [Call.streams])
  | take n =>
    rw [World.step] at hstep
    split at hstep <;> cases hstep
    exact h.receive _
  | call n move =>
    obtain ⟨t, hn, hstep⟩ := bind_eq_some_iff.mp hstep
    obtain ⟨⟨w₁, t'⟩, hcall, rfl⟩ := map_eq_some_iff.mp hstep
    exact h.call hn (callStep_cases hcall)

end World

/-- **No send on a closed channel.**  In every state that Core reaches, the channel of every pending request
is open; no channel has been closed more than once, and nothing has been sent on one after it was closed. -/
theorem registry_channels_sound {w : World}
    (h : Reach World.step anyStep World.start w) :
    (∀ c id ch, w.pendingChan c id = some ch →
      ∃ chan, w.chans[ch]? = some chan ∧ chan.closed = false) ∧
    ∀ chan ∈ w.chans, chan.closes ≤ 1 ∧ chan.lateSends = 0 := by
  have hsound : w.Sound := h.invariant World.sound_start fun _ _ _ hw _ hstep ↦ hw.step hstep
  refine ⟨fun c id ch hch ↦ ?_, fun chan hmem ↦ ?_⟩
  · have hlt := hsound.owned.lt (i := .entry c id) hch
    have hopen := hsound.owned.isOpen (i := .entry c id) hch
    refine ⟨w.chans[ch], getElem?_eq_getElem hlt, ?_⟩
    rw [World.closes, getElem?_eq_getElem hlt] at hopen
    simpa [Chan.closed] using hopen
  · obtain ⟨ch, hch⟩ := mem_iff_getElem?.mp hmem
    have honce := hsound.owned.once ch
    have hlate := hsound.late ch
    rw [World.closes, hch] at honce
    rw [World.lateSends, hch] at hlate
    exact ⟨honce, hlate⟩

/-- A stream ends while a request of its node is pending and another has failed to be sent: three channels
have been closed, each once. -/
theorem registry_channels_sound_torn : ∃ w,
    Reach World.step anyStep World.start w ∧ w.chans.map Chan.closes = [1, 1, 0, 1] ∧
      ∀ chan ∈ w.chans, chan.closes ≤ 1 ∧ chan.lateSends = 0 := by
  have hrun : (exec World.step anyStep World.start
      [.registerProved 7 none, .sendRequest 7 "a" false, .call 0 .proceed, .sendRequestStreaming 7 "b",
        .call 1 .proceed, .call 1 .proceed, .call 1 (.sent (some "broken")), .call 1 .proceed,
        .unregister 0]).map (·.chans.map Chan.closes) = some [1, 1, 0, 1] := by decide
  obtain ⟨w, hw, hcloses⟩ := exists_reach_of_exec hrun
  exact ⟨w, hw, hcloses, (registry_channels_sound hw).2⟩

end Dylaris.Registry
