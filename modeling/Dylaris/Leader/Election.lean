import Dylaris.Library.Machine

/-!
# One leader among the Cores

`core/pkg/leader/leader.go`.  The Cores elect a leader with one Redis key, which holds the id of the
leader and expires.  An instance takes the key with `SETNX`, extends it every ten seconds with a script
that compares the id, and on shutdown deletes it with another.  Beside the key each instance has a flag
of its own, and that flag is what `IsLeader` answers with.

The flag and the key are changed in different steps.  The model has any number of instances and one
step for every command to Redis and every change of a flag.  A call may fail, or be carried out and its
answer lost; and a command whose caller has given up may still be carried out later (`late`).  A lease
may expire (`expire`), and an instance may die.

* `Lasting` is what is assumed of leases: none expires from the moment its instance has acquired or
  refreshed it to the next refresh of that instance.
* `Settled` says of an instance that sets its flag that no other one with its flag set is in the middle
  of a refresh or of its release.
* `one_leader`: in every run that meets both, at most one instance answers that it is the leader.

`Settled` is needed because `release` deletes the key first and clears the flag after: another
instance can acquire the lease and set its flag in between.  The same can come of a lease that expires
while its instance waits for the answer to a refresh.
-/

set_option autoImplicit false

namespace Dylaris.Leader

open Machine Function Option

universe u

/-! ## The election -/

/-- Where the election goroutine of an instance stands. -/
inductive Stage
  /-- In `run`, before an attempt to acquire the lease. -/
  | follower
  /-- `SETNX` has answered that the lease is this instance's. -/
  | acquired
  /-- In `runAsLeader`, waiting for the ticker. -/
  | leading
  /-- `refresh` has been called. -/
  | refreshing
  /-- `refresh` has failed, or has found that the lease is not this instance's. -/
  | steppingDown
  /-- In `release`, past the look at the flag. -/
  | releasing
  /-- The script of `release` has returned. -/
  | released
  | stopped
deriving DecidableEq, Repr

/-- An instance of Core. -/
structure Instance where
  isLeader : Bool
  stage : Stage
deriving DecidableEq, Repr

inductive Command
  | setNX | refresh | release
deriving DecidableEq, Repr

/-- How a call turns out: answered, carried out with its answer lost, failed, or given up while the
command is still on its way. -/
inductive Reply
  | ok | lost | failed | late
deriving DecidableEq, Repr

def Reply.applied : Reply → Bool
  | .ok | .lost => true
  | .failed | .late => false

/-- The key, the instances, and the commands that are still on their way. -/
structure World (I : Type u) where
  key : Option I
  inst : I → Instance
  late : List (I × Command)

/-- No instance is the leader; the key may be left from an earlier one. -/
def World.start {I : Type u} (key : Option I) : World I := ⟨key, fun _ ↦ ⟨false, .follower⟩, []⟩

inductive Label (I : Type u)
  | setNX (i : I) (reply : Reply)
  /-- `isLeader.Store(true)`. -/
  | setFlag (i : I)
  /-- The ticker fires and `refresh` is called. -/
  | tick (i : I)
  | refresh (i : I) (reply : Reply)
  /-- `isLeader.Store(false)`, after a refresh or in `release`. -/
  | clearFlag (i : I)
  /-- `run` returns, and its deferred `release` looks at the flag. -/
  | stop (i : I)
  | release (i : I) (reply : Reply)
  /-- A command whose caller has given up is carried out. -/
  | late (n : Nat)
  | expire
  | crash (i : I)

section Step

variable {I : Type u} [DecidableEq I]

/-- What a command of an instance makes of the key; `refresh` changes only when it expires. -/
def Command.apply (i : I) : Command → Option I → Option I
  | .setNX, key => key.or (some i)
  | .refresh, key => key
  | .release, key => if key = some i then none else key

/-- The key after a call. -/
def Reply.on (reply : Reply) (i : I) (c : Command) (key : Option I) : Option I :=
  if reply.applied then c.apply i key else key

/-- What is on its way after a call. -/
def Reply.leaves (reply : Reply) (i : I) (c : Command) (late : List (I × Command)) :
    List (I × Command) :=
  if reply = .late then late ++ [(i, c)] else late

def World.goto (w : World I) (i : I) (isLeader : Bool) (stage : Stage) : World I :=
  { w with inst := update w.inst i ⟨isLeader, stage⟩ }

/-- A call to Redis, after which the instance goes on at `stage`. -/
def World.call (w : World I) (i : I) (c : Command) (reply : Reply) (stage : Stage) : World I :=
  { key := reply.on i c w.key
    inst := update w.inst i { w.inst i with stage := stage }
    late := reply.leaves i c w.late }

def World.step (w : World I) : Label I → Option (World I)
  | .setNX i reply =>
    if (w.inst i).stage = .follower then
      some (w.call i .setNX reply (if reply = .ok ∧ w.key = none then .acquired else .follower))
    else none
  | .setFlag i => if (w.inst i).stage = .acquired then some (w.goto i true .leading) else none
  | .tick i =>
    if (w.inst i).stage = .leading then some (w.goto i (w.inst i).isLeader .refreshing) else none
  | .refresh i reply =>
    if (w.inst i).stage = .refreshing then
      some (w.call i .refresh reply
        (if reply = .ok ∧ w.key = some i then .leading else .steppingDown))
    else none
  | .clearFlag i =>
    match (w.inst i).stage with
    | .steppingDown => some (w.goto i false .follower)
    | .released => some (w.goto i false .stopped)
    | _ => none
  | .stop i =>
    if (w.inst i).stage = .follower ∨ (w.inst i).stage = .leading then
      some (w.goto i (w.inst i).isLeader (if (w.inst i).isLeader then .releasing else .stopped))
    else none
  | .release i reply =>
    if (w.inst i).stage = .releasing then some (w.call i .release reply .released) else none
  | .late n =>
    w.late[n]?.map fun c ↦ { w with key := c.2.apply c.1 w.key, late := w.late.eraseIdx n }
  | .expire => some { w with key := none }
  | .crash i => some (w.goto i false .stopped)

/-! ## The conditions -/

/-- No lease expires between a successful acquire or refresh of its instance and the next refresh. -/
def Lasting (w : World I) : Label I → Prop
  | .expire => ∀ i, w.key = some i → (w.inst i).stage ≠ .acquired ∧ (w.inst i).stage ≠ .leading
  | _ => True

/-- The instance may have lost its lease and still has its flag. -/
def Stage.between : Stage → Bool
  | .refreshing | .steppingDown | .releasing | .released => true
  | .follower | .acquired | .leading | .stopped => false

/-- While an instance sets its flag, no other one is between its last refresh, or its release, and the
clearing of its flag. -/
def Settled (w : World I) : Label I → Prop
  | .setFlag i => ∀ j, j ≠ i → (w.inst j).stage.between = false
  | _ => True

/-! ## Who has the lease -/

/-- What holds in every state: the flag goes with the stage, and whoever has just acquired the lease or
is not refreshing it has it. -/
structure Elected (w : World I) : Prop where
  flag {i : I} : (w.inst i).isLeader = true →
    (w.inst i).stage = .leading ∨ (w.inst i).stage.between = true
  lease {i : I} : (w.inst i).stage = .acquired ∨ (w.inst i).stage = .leading → w.key = some i
  /-- A command on its way deletes the key only for an instance that has stopped, or is about to. -/
  late {i : I} : (i, Command.release) ∈ w.late →
    (w.inst i).stage = .released ∨ (w.inst i).stage = .stopped
  one {i j : I} : (w.inst i).isLeader = true → (w.inst j).isLeader = true → i = j

variable {w w' : World I} {i j : I} {x : Instance} {key : Option I} {late : List (I × Command)}

omit [DecidableEq I] in
theorem Elected.isLeader_eq_false (h : Elected w) (hl : (w.inst i).stage ≠ .leading)
    (hb : (w.inst i).stage.between = false) : (w.inst i).isLeader = false := by
  cases hflag : (w.inst i).isLeader with
  | false => rfl
  | true =>
    rcases h.flag hflag with hs | hs
    · exact absurd hs hl
    · exact absurd (hb.symm.trans hs) (by simp)

/-- One instance moves.  The key stays with any other instance that has it, and the new stage goes
with the flag and the key. -/
theorem Elected.set (h : Elected w) (i : I)
    (hflag : x.isLeader = true → x.stage = .leading ∨ x.stage.between = true)
    (hlease : x.stage = .acquired ∨ x.stage = .leading → key = some i)
    (hkey : ∀ {j}, j ≠ i → w.key = some j → key = some j)
    (hlate : ∀ {j}, (j, Command.release) ∈ late → (j, Command.release) ∈ w.late ∨ j = i)
    (hown : (i, Command.release) ∈ late → x.stage = .released ∨ x.stage = .stopped)
    (hone : x.isLeader = true → (w.inst i).isLeader = true ∨
      ∀ j, j ≠ i → (w.inst j).isLeader = false) :
    Elected ⟨key, update w.inst i x, late⟩ where
  flag {j} hj := by
    by_cases hji : j = i
    · subst hji
      simp only [update_self] at hj ⊢
      exact hflag hj
    · simp only [update_of_ne hji] at hj ⊢
      exact h.flag hj
  lease {j} hj := by
    by_cases hji : j = i
    · subst hji
      simp only [update_self] at hj
      exact hlease hj
    · simp only [update_of_ne hji] at hj
      exact hkey hji (h.lease hj)
  late {j} hj := by
    by_cases hji : j = i
    · subst hji
      simp only [update_self]
      exact hown hj
    · simp only [update_of_ne hji]
      exact h.late ((hlate hj).resolve_right hji)
  one {j k} hj hk := by
    -- Of the two at most one has moved.
    have hother : ∀ {l}, l ≠ i → (update w.inst i x l).isLeader = true →
        (w.inst l).isLeader = true := by
      intro l hl hflag
      rwa [update_of_ne hl] at hflag
    have hmoved : ∀ {l}, l ≠ i → (update w.inst i x l).isLeader = true →
        (update w.inst i x i).isLeader = true → l = i := by
      intro l hl hlf hif
      rw [update_self] at hif
      rcases hone hif with hbefore | hnone
      · exact h.one (hother hl hlf) hbefore
      · exact absurd ((hnone l hl).symm.trans (hother hl hlf)) (by simp)
    by_cases hji : j = i
    · subst hji
      by_cases hki : k = j
      · exact hki.symm
      · exact (hmoved hki hk hj).symm
    · by_cases hki : k = i
      · subst hki
        exact hmoved hji hj hk
      · exact h.one (hother hji hj) (hother hki hk)

omit [DecidableEq I] in
/-- The key changes while the instances stay where they are. -/
theorem Elected.withKey (h : Elected w) (hkey : ∀ {j}, (w.inst j).stage = .acquired ∨
      (w.inst j).stage = .leading → key = some j)
    (hlate : ∀ {j}, (j, Command.release) ∈ late → (j, Command.release) ∈ w.late) :
    Elected ⟨key, w.inst, late⟩ where
  flag := h.flag
  lease := hkey
  late hj := h.late (hlate hj)
  one := h.one

/-- What only moves an instance. -/
theorem Elected.goto (h : Elected w) {isLeader : Bool} {stage : Stage}
    (hflag : isLeader = true → stage = .leading ∨ stage.between = true)
    (hlease : stage = .acquired ∨ stage = .leading → w.key = some i)
    (hown : (w.inst i).stage = .released ∨ (w.inst i).stage = .stopped →
      stage = .released ∨ stage = .stopped)
    (hone : isLeader = true →
      (w.inst i).isLeader = true ∨ ∀ j, j ≠ i → (w.inst j).isLeader = false) :
    Elected (w.goto i isLeader stage) :=
  h.set i hflag hlease (fun _ hk ↦ hk) (fun hj ↦ .inl hj) (fun hi ↦ hown (h.late hi)) hone

omit [DecidableEq I] in
/-- A call leaves nothing on its way but its own command. -/
theorem mem_of_mem_leaves {reply : Reply} {c c' : Command} (hc : c' ≠ c)
    (h : (j, c') ∈ reply.leaves i c late) : (j, c') ∈ late := by
  unfold Reply.leaves at h
  split at h
  · simpa [hc] using h
  · exact h

section

variable (h : Elected w)

include h

theorem Elected.setNX (hs : (w.inst i).stage = .follower) (reply : Reply) :
    Elected (w.call i .setNX reply
      (if reply = .ok ∧ w.key = none then .acquired else .follower)) := by
  have hno : (w.inst i).isLeader = false :=
    h.isLeader_eq_false (by rw [hs]; simp) (by rw [hs]; rfl)
  have hlate : ∀ {j}, (j, Command.release) ∈ reply.leaves i .setNX w.late →
      (j, Command.release) ∈ w.late := mem_of_mem_leaves (by simp)
  refine h.set i (fun hf ↦ absurd (hno.symm.trans hf) (by simp)) (fun hst ↦ ?_) (fun hj hk ↦ ?_)
    (fun hj ↦ .inl (hlate hj)) (fun hi ↦ ?_) (fun hf ↦ absurd (hno.symm.trans hf) (by simp))
  · split at hst
    · rename_i hok
      simp [Reply.on, hok.1, Reply.applied, Command.apply, hok.2]
    · exact absurd hst (by simp)
  · unfold Reply.on
    split
    · rw [Command.apply, hk, some_or]
    · exact hk
  · exact absurd (h.late (hlate hi)) (by simp [hs])

theorem Elected.refresh (hs : (w.inst i).stage = .refreshing) (reply : Reply) :
    Elected (w.call i .refresh reply
      (if reply = .ok ∧ w.key = some i then .leading else .steppingDown)) := by
  have hkey : reply.on i .refresh w.key = w.key := by
    unfold Reply.on
    split
    · rfl
    · rfl
  have hlate : ∀ {j}, (j, Command.release) ∈ reply.leaves i .refresh w.late →
      (j, Command.release) ∈ w.late := mem_of_mem_leaves (by simp)
  refine h.set i (fun _ ↦ ?_) (fun hst ↦ ?_) (fun _ hk ↦ by rw [hkey, hk]) (fun hj ↦ .inl (hlate hj))
    (fun hi ↦ absurd (h.late (hlate hi)) (by simp [hs])) (fun hf ↦ .inl hf)
  · split
    · exact .inl rfl
    · exact .inr rfl
  · split at hst
    · rename_i hok
      rw [hkey, hok.2]
    · exact absurd hst (by simp)

theorem Elected.release (reply : Reply) :
    Elected (w.call i .release reply .released) := by
  refine h.set i (fun _ ↦ .inr rfl) (by simp) (fun hj hk ↦ ?_) (fun hj ↦ ?_) (fun _ ↦ .inl rfl)
    (fun hf ↦ .inl hf)
  · unfold Reply.on
    split
    · rw [Command.apply, hk, if_neg (by simpa using hj)]
    · exact hk
  · unfold Reply.leaves at hj
    split at hj
    · simpa using hj
    · exact .inl hj

theorem Elected.carriedOut {n : Nat} {c : I × Command} (hc : w.late[n]? = some c) :
    Elected { w with key := c.2.apply c.1 w.key, late := w.late.eraseIdx n } := by
  obtain ⟨j, cmd⟩ := c
  refine h.withKey (fun {k} hk ↦ ?_) (fun hj ↦ List.mem_of_mem_eraseIdx hj)
  have hkey := h.lease hk
  cases cmd with
  | setNX => rw [Command.apply, hkey, some_or]
  | refresh => exact hkey
  | release =>
    have hne : ¬ some k = some j := by
      intro heq
      cases heq
      rcases h.late (List.mem_of_getElem? hc) with hs | hs
      · simp [hs] at hk
      · simp [hs] at hk
    rw [Command.apply, hkey, if_neg hne]

/-- **Every step that meets the conditions** keeps the election. -/
theorem Elected.step {a : Label I} (hl : Lasting w a) (hset : Settled w a)
    (hstep : w.step a = some w') : Elected w' := by
  cases a with
  | setNX i reply =>
    obtain ⟨hs, ⟨⟩⟩ := ite_none_right_eq_some.mp hstep
    exact h.setNX hs reply
  | setFlag i =>
    obtain ⟨hs, ⟨⟩⟩ := ite_none_right_eq_some.mp hstep
    have hkey := h.lease (.inl hs)
    refine h.goto (fun _ ↦ .inl rfl) (fun _ ↦ hkey) (by simp [hs]) fun _ ↦ .inr fun j hj ↦ ?_
    refine h.isLeader_eq_false (fun hjs ↦ hj ?_) (hset j hj)
    exact some_inj.mp ((h.lease (.inr hjs)).symm.trans hkey)
  | tick i =>
    obtain ⟨hs, ⟨⟩⟩ := ite_none_right_eq_some.mp hstep
    exact h.goto (fun _ ↦ .inr rfl) (by simp) (by simp [hs]) fun hf ↦ .inl hf
  | refresh i reply =>
    obtain ⟨hs, ⟨⟩⟩ := ite_none_right_eq_some.mp hstep
    exact h.refresh hs reply
  | clearFlag i =>
    rw [World.step] at hstep
    split at hstep <;> cases hstep
    · rename_i hs
      exact h.goto (by simp) (by simp) (by simp [hs]) (by simp)
    · exact h.goto (by simp) (by simp) (by simp) (by simp)
  | stop i =>
    obtain ⟨hs, ⟨⟩⟩ := ite_none_right_eq_some.mp hstep
    refine h.goto (fun hf ↦ ?_) (fun hst ↦ ?_) (fun hst ↦ ?_) fun hf ↦ .inl hf
    · rw [if_pos hf]
      exact .inr rfl
    · split at hst <;> exact absurd hst (by simp)
    · rcases hs with hs | hs
      · simp [hs] at hst
      · simp [hs] at hst
  | release i reply =>
    obtain ⟨-, ⟨⟩⟩ := ite_none_right_eq_some.mp hstep
    exact h.release reply
  | late n =>
    obtain ⟨c, hc, rfl⟩ := map_eq_some_iff.mp hstep
    exact h.carriedOut hc
  | expire =>
    cases hstep
    refine h.withKey (fun {j} hj ↦ ?_) id
    obtain ⟨hacquired, hleading⟩ := hl j (h.lease hj)
    exact absurd hj (by simp [hacquired, hleading])
  | crash i =>
    cases hstep
    exact h.goto (by simp) (by simp) (by simp) (by simp)

end

omit [DecidableEq I] in
theorem elected_start (key : Option I) : Elected (World.start key) where
  flag hi := absurd hi (by simp [World.start])
  lease hi := absurd hi (by simp [World.start])
  late hi := absurd hi (by simp [World.start])
  one hi := absurd hi (by simp [World.start])

/-- **There is one leader.**  For any number of instances, in every run in which leases last from one
refresh to the next and no instance sets its flag while another that has its flag set is in the middle
of a refresh or of its release, no two instances answer that they are the leader. -/
theorem one_leader {key : Option I}
    (h : Reach World.step (fun w a ↦ Lasting w a ∧ Settled w a) (World.start key) w)
    (hi : (w.inst i).isLeader = true) (hj : (w.inst j).isLeader = true) : i = j :=
  (h.invariant (elected_start key) fun _ _ _ hw hok hstep ↦ hw.step hok.1 hok.2 hstep).one hi hj

end Step

/-! ## Two instances -/

instance (w : World Bool) (a : Label Bool) : Decidable (Lasting w a) := by
  unfold Lasting
  split <;> infer_instance

instance (w : World Bool) (a : Label Bool) : Decidable (Settled w a) := by
  unfold Settled
  split <;> infer_instance

/-- The first instance leads, loses the answer to a refresh and steps down; the lease expires, a
`SETNX` that it had given up is carried out and expires in turn, and the second leads. -/
def handover : List (Label Bool) :=
  [.setNX false .late, .setNX false .ok, .setFlag false, .tick false, .refresh false .ok, .tick false,
    .refresh false .lost, .clearFlag false, .expire, .late 0, .setNX true .ok, .expire,
    .setNX true .ok, .setFlag true]

theorem one_leader_handover :
    ∃ w : World Bool, Reach World.step (fun w a ↦ Lasting w a ∧ Settled w a) (World.start none) w ∧
      (w.inst true).isLeader = true ∧ ∀ i, (w.inst i).isLeader = true → i = true := by
  have hrun : (exec World.step (fun w a ↦ Lasting w a ∧ Settled w a) (World.start none)
      handover).map (fun w ↦ (w.inst true).isLeader) = some true := by decide +kernel
  obtain ⟨w, hw, hflag⟩ := exists_reach_of_exec hrun
  exact ⟨w, hw, hflag, fun i hi ↦ one_leader hw hi hflag⟩

/-- The first instance is stopped.  Between the script that deletes its lease and the clearing of its
flag the second acquires the lease and sets its own. -/
def releasedFirst : List (Label Bool) :=
  [.setNX false .ok, .setFlag false, .stop false, .release false .ok, .setNX true .ok, .setFlag true]

/-- No lease has expired, and both answer that they are the leader. -/
theorem not_one_leader :
    ∃ w : World Bool, Reach World.step Lasting (World.start none) w ∧
      (w.inst false).isLeader = true ∧ (w.inst true).isLeader = true :=
  exists_reach_of_any releasedFirst (by decide +kernel)

end Dylaris.Leader
