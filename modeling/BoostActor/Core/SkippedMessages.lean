import BoostActor.Core.ActorSteps
import BoostActor.Core.ResponseHandlers

/-!
# Skipped messages

Messages that an actor skips stay in the second partition of its cache. A message that was
handled makes the actor look at them again, since it may have changed the behavior.

Which messages a behavior handles is a function `handles` of the behavior and of the number of
the message. `ScannedActor` adds to an actor what matters for this when its user code is called:
the behavior stack, the pending responses and the number of the message.

* `Passed` — a message that an actor with a given stack and given pending responses skips;
* `nothing_left_behind` — an actor that is not working has passed everything in the second
  partition, in every run in which code whose calls are not followed by a scan of the cache
  leaves the behavior stack and the pending responses alone.
-/

namespace BoostActor

open Lib EventBasedActor

/-- What decides whether a message is handled: the behavior stack and the pending responses. -/
abbrev View := List Behavior × List (MessageId × Option Behavior)

/-- The view of an actor. -/
def EventBasedActor.view (s : EventBasedActor) : View :=
  (s.behaviors, s.requests.pendingResponses)

/-- An event-based actor with its view when user code was called. -/
structure ScannedActor where
  actor : EventBasedActor
  before : View
  /-- the number of the message that the code was called for -/
  serial : Nat

namespace ScannedActor

/-- The record after a step to `s`. -/
def record (t : ScannedActor) (l : Label) (s : EventBasedActor) : ScannedActor :=
  if l = .next then ⟨s, s.view, (t.actor.nextElement.map (·.serial)).getD 0⟩
  else ⟨s, t.before, t.serial⟩

def step (t : ScannedActor) (l : Label) : Option ScannedActor := (t.actor.step l).map (t.record l)

def isInitial (t : ScannedActor) : Prop := t.actor.isInitial

/-- The states of runs whose steps all meet a condition. -/
def Reachable (ok : ScannedActor → Label → Prop) : ScannedActor → Prop := Reach isInitial step ok

-- -------------------------
-- Messages that are handled and messages that are skipped
-- -------------------------

section

variable (handles : Behavior → Nat → Bool)

/-- The current behavior handles the message; or, while a response is awaited, the message has
its id. -/
def wants (v : View) (e : MailboxElement) : Prop :=
  match v.2 with
  | [] => MessageId.isResponse e.mid = false ∧ ∃ b ∈ v.1.head?, handles b e.serial = true
  | pr :: _ => e.mid = pr.1

/-- The message was skipped. Responses that nobody awaits are not skipped, but dropped. -/
def Passed (v : View) (e : MailboxElement) : Prop :=
  match v.2 with
  | [] => MessageId.isResponse e.mid = false ∧ ∀ b ∈ v.1.head?, handles b e.serial = false
  | pr :: _ => e.mid ≠ pr.1

/-- A message that is passed is not wanted. -/
theorem Passed.not_wants {v : View} {e : MailboxElement} (h : Passed handles v e) :
    ¬ wants handles v e := by
  unfold Passed at h
  unfold wants
  split at h
  · rintro ⟨-, b, hb, hh⟩
    rw [h.2 b hb] at hh
    cases hh
  · exact h

-- -------------------------
-- The condition
-- -------------------------

/-- The result of a handler agrees with `handles`, and a handler that skips its message leaves
the view alone. -/
def skipsCleanly (t : ScannedActor) (l : Label) : Bool :=
  match t.actor.phase, l with
  | .invoking _ (.message _ _), .ret o =>
    o.throws ||
      t.before.1.head?.all (fun b => handles b t.serial = decide (o ≠ .skip)) &&
        (o ≠ .skip || t.actor.view = t.before)
  | _, _ => true

/-- If there is something in the cache, a migrate-back message only removes a behavior that
forwards messages, and `load_state` leaves the view alone. -/
def migratesCleanly (t : ScannedActor) (l : Label) : Bool :=
  match t.actor.phase, l with
  | .invoking _ (.loadState _), .ret o =>
    o.throws || t.actor.visited.isEmpty || t.actor.view = t.before
  | _, .next =>
    !(t.actor.migratedFrom && t.actor.nextElement.any (·.content = .migrateFrom)) ||
      t.actor.visited.isEmpty || t.actor.behaviors.head?.any (·.handlers = .forwarding)
  | _, _ => true

/-- An actor is revived only if the exception comes from a message of the mailbox and the code
that threw it has left the view alone; or if there is nothing in the cache. -/
def revivesCleanly (t : ScannedActor) (l : Label) : Bool :=
  match t.actor.phase, l with
  | .failed _ job, .handle rsn =>
    (t.actor.handle rsn).all (·.phase ≠ .ready) ||
      t.actor.unvisited.isEmpty &&
        (t.actor.visited.isEmpty || job.isSome && t.actor.view = t.before)
  | _, _ => true

/-- The runs that the result is about. -/
structure Careful (t : ScannedActor) (l : Label) : Prop where
  numbers : t.actor.numbersRequests l = true
  skips : skipsCleanly handles t l = true
  migrates : migratesCleanly t l = true
  revives : revivesCleanly t l = true

instance (t : ScannedActor) (l : Label) : Decidable (Careful handles t l) :=
  decidable_of_iff (t.actor.numbersRequests l && skipsCleanly handles t l &&
      migratesCleanly t l && revivesCleanly t l) <| by
    simp only [Bool.and_eq_true]
    exact ⟨fun ⟨⟨⟨hn, hs⟩, hm⟩, hr⟩ => ⟨hn, hs, hm, hr⟩,
      fun ⟨hn, hs, hm, hr⟩ => ⟨⟨⟨hn, hs⟩, hm⟩, hr⟩⟩

end

-- -------------------------
-- The invariant
-- -------------------------

variable {handles : Behavior → Nat → Bool} {s s' : EventBasedActor} {t t' : ScannedActor}
variable {e : MailboxElement} {origin : Origin} {awaited : MessageId} {o : Outcome} {v : View}
variable {n : Nat} {l : Label}

theorem valid_of_issued {q : Requests Behavior} {mid : MessageId} (h : q.Issued mid) :
    MessageId.valid mid = true ∧ MessageId.isResponse mid = true := by
  obtain ⟨m, hm, -, rfl⟩ := h
  exact ⟨MessageId.valid_responseId hm, MessageId.isResponse_responseId hm⟩

/-- What can be in the second partition: no system messages, and only responses to requests that
were made. -/
def Filed (q : Requests Behavior) (e : MailboxElement) : Prop :=
  (MessageId.isResponse e.mid = true → q.Issued e.mid) ∧ ¬ e.isSys

/-- What the actor knows about ids, in all phases. -/
structure Known (s : EventBasedActor) : Prop where
  issued : ∀ mid, s.requests.awaits mid = true → s.requests.Issued mid
  filed : ∀ e ∈ s.visited ++ s.unvisited, Filed s.requests e

/-- Everything before the iterator of a scan was skipped. -/
def Swept (handles : Behavior → Nat → Bool) (v : View) (visited : List MailboxElement) : Prop :=
  ∀ e ∈ visited, Passed handles v e

/-- Where the actor goes on after a message that is not handled. -/
def Rests (s : EventBasedActor) : Origin → Prop
  | .mailbox => s.unvisited = []
  | .cache mid => mid = s.requests.awaitedResponseId

/-- User code that was called by `invoke_message` is running. -/
structure Running (handles : Behavior → Nat → Bool) (t : ScannedActor) (origin : Origin)
    (job : Job) : Prop where
  swept : Swept handles t.before t.actor.visited
  mailbox : origin = .mailbox → t.actor.unvisited = []
  cache : ∀ mid, origin = .cache mid → mid = (t.before.2.head?.map (·.1)).getD 0
  message : ∀ hadTimeout ptr, job = .message hadTimeout ptr → t.before.2 = [] ∧
    ∀ e ∈ t.actor.current, e.serial = t.serial ∧ MessageId.isResponse e.mid = false ∧ ¬ e.isSys
  sys : ∀ e, job = .saveState e ∨ job = .loadState e → origin = .mailbox

/-- What has been skipped, in the phases of `resume`. -/
def Phased (handles : Behavior → Nat → Bool) (t : ScannedActor) : Prop :=
  match t.actor.phase with
  | .initializing => t.actor.visited = [] ∧ t.actor.unvisited = []
  | .ready | .filling => t.actor.unvisited = [] ∧ Swept handles t.actor.view t.actor.visited
  | .scanning mid => mid = t.actor.requests.awaitedResponseId ∧
    Swept handles t.actor.view t.actor.visited
  | .invoking origin job => Running handles t origin job
  | .failed _ (some _) => Swept handles t.before t.actor.visited
  | _ => True

/-- A step that keeps the requests and adds no message to the cache. -/
theorem Known.congr (h : Known s) (hq : s'.requests = s.requests)
    (hm : ∀ e ∈ s'.visited ++ s'.unvisited, e ∈ s.visited ++ s.unvisited) : Known s' := by
  refine ⟨?_, fun e he => ?_⟩
  · rw [hq]
    exact h.issued
  · rw [hq]
    exact h.filed e (hm e he)

theorem Known.quit (h : Known s) (rsn : ExitReason) : Known (s.quit rsn) :=
  h.congr rfl fun _ he => he

-- -------------------------
-- Results of `invoke_message`
-- -------------------------

theorem known_dropped (h : Known s) (origin : Origin) : Known (s.dropped origin) := by
  cases origin <;> exact h.congr rfl fun e he => he

/-- After a dropped message the scan goes on where it was. -/
theorem phased_dropped (hr : Rests s origin) (hs : Swept handles s.view s.visited) :
    Phased handles ⟨s.dropped origin, v, n⟩ := by
  cases origin with
  | mailbox => exact ⟨hr, hs⟩
  | cache mid => exact ⟨hr, hs⟩

/-- A skipped message is filed in the cache. -/
theorem known_skipped (h : Known s) (he : Filed s.requests e) (origin : Origin) :
    Known (s.skipped e origin) := by
  obtain ⟨visited, phase, heq, hmem, -⟩ := s.skipped_eq e origin
  rw [heq]
  refine ⟨h.issued, fun x hx => ?_⟩
  rcases List.mem_append.mp hx with hx | hx
  · rcases (hmem x).mp hx with rfl | hx
    · exact he
    · exact h.filed x (List.mem_append_left _ hx)
  · exact h.filed x (List.mem_append_right _ hx)

/-- After a skipped message the scan goes on behind it. -/
theorem phased_skipped (hr : Rests s origin) (hs : Swept handles s.view s.visited)
    (he : Passed handles s.view e) : Phased handles ⟨s.skipped e origin, v, n⟩ := by
  cases origin with
  | mailbox =>
    obtain ⟨visited, phase, heq, hmem, hphase⟩ := s.skipped_eq e .mailbox
    rw [heq]
    rcases hphase with rfl | ⟨mid, ho, -⟩
    · refine ⟨hr, fun x hx => ?_⟩
      rcases (hmem x).mp hx with rfl | hx
      · exact he
      · exact hs x hx
    · cases ho
  | cache mid =>
    refine ⟨hr, fun x hx => ?_⟩
    rcases List.mem_append.mp hx with hx | hx
    · exact hs x hx
    · rw [List.mem_singleton.mp hx]
      exact he

/-- Success keeps the cache filed. -/
theorem known_success (h : Known s) : Known s.success := by
  rcases s.success_eq with he | he
  · rw [he]
    exact h.congr rfl fun e hm => hm
  · rw [he]
    exact h.congr rfl fun e hm => by simpa using hm

/-- A scan begins with nothing skipped yet. -/
theorem phased_success (s : EventBasedActor) : Phased handles ⟨s.success, v, n⟩ := by
  rcases s.success_eq with he | he
  · rw [he]
    trivial
  · rw [he]
    exact ⟨rfl, fun e hm => absurd hm List.not_mem_nil⟩

-- -------------------------
-- `invoke_message`
-- -------------------------

/-- The actor works on a message that it has taken from its mailbox or, if it is no system
message, from its cache. -/
structure Working (handles : Behavior → Nat → Bool) (s : EventBasedActor) (e : MailboxElement)
    (origin : Origin) : Prop where
  known : Known s
  swept : Swept handles s.view s.visited
  rests : Rests s origin
  cached : ∀ mid, origin = .cache mid → ¬ e.isSys

/-- The id at the front of the pending ones is that of a response. -/
theorem Known.valid_awaited (h : Known s) {pr : MessageId × Option Behavior}
    {prs : List (MessageId × Option Behavior)} (hp : s.requests.pendingResponses = pr :: prs) :
    s.requests.awaitedResponseId = pr.1 ∧ MessageId.valid pr.1 = true ∧
      MessageId.isResponse pr.1 = true := by
  refine ⟨by simp [Requests.awaitedResponseId, hp], ?_⟩
  exact valid_of_issued (h.issued pr.1 (by simp [Requests.awaits, hp]))

/-- User code is called where the actor works on the message. -/
theorem Working.position (h : Working handles s e origin)
    (hv : s'.visited = s.visited) (hu : s'.unvisited = s.unvisited) (hview : s'.view = s.view) :
    Swept handles s'.view s'.visited ∧ (origin = .mailbox → s'.unvisited = []) ∧
      ∀ mid, origin = .cache mid → mid = (s'.view.2.head?.map (·.1)).getD 0 := by
  have hr := h.rests
  refine ⟨?_, fun ho => ?_, fun mid ho => ?_⟩
  · rw [hv, hview]
    exact h.swept
  · rw [ho] at hr
    exact hu.trans hr
  · rw [ho] at hr
    rw [hview]
    exact hr

/-- The code for a message other than an ordinary one is called. -/
theorem Working.runs {job : Job} (h : Working handles s e origin)
    (hv : s'.visited = s.visited) (hu : s'.unvisited = s.unvisited) (hview : s'.view = s.view)
    (hj : ∀ hadTimeout ptr, job ≠ .message hadTimeout ptr)
    (hsys : ∀ x, job = .saveState x ∨ job = .loadState x → origin = .mailbox) :
    Running handles ⟨s', s'.view, n⟩ origin job := by
  obtain ⟨hswept, hmailbox, hcache⟩ := h.position hv hu hview
  exact ⟨hswept, hmailbox, hcache, fun _ _ he => absurd he (hj _ _), hsys⟩

/-- System messages come from the mailbox. -/
theorem Working.origin_eq (h : Working handles s e origin) (hsys : e.isSys) :
    origin = .mailbox := by
  cases origin with
  | mailbox => rfl
  | cache mid => exact absurd hsys (h.cached mid rfl)

/-- A migrate-back message removes no behavior that has skipped a message. -/
theorem Working.loads (h : Working handles s e origin)
    (hf : ∀ b k, b.handlers = .forwarding → handles b k = true)
    (hmig : s.migratedFrom = true → s.visited = [] ∨
      ∃ b ∈ s.behaviors.head?, b.handlers = .forwarding) :
    Swept handles (if s.migratedFrom then s.behaviors.tail else s.behaviors,
      s.requests.pendingResponses) s.visited := by
  intro x hx
  have hpass := h.swept x hx
  unfold Passed view at hpass
  unfold Passed
  dsimp only at hpass ⊢
  split at hpass
  · refine ⟨hpass.1, fun b hb => ?_⟩
    by_cases hm : s.migratedFrom = true
    · rcases hmig hm with hnil | ⟨b', hb', hfw⟩
      · rw [hnil] at hx
        cases hx
      · -- a behavior that forwards everything has skipped nothing
        have hskipped := hpass.2 b' hb'
        rw [hf b' x.serial hfw] at hskipped
        cases hskipped
    · exact hpass.2 b (by simpa [hm] using hb)
  · exact hpass

/-- A response that has arrived leaves the other requests. -/
theorem Known.markArrived (h : Known s) (mid : MessageId) (current : Option MailboxElement) :
    Known { s with current, requests := s.requests.markArrived mid } := by
  refine ⟨fun m hm => ?_, h.filed⟩
  exact h.issued m (Requests.awaits_markArrived.mp hm).2

/-- A message is skipped because the actor waits for a response. -/
theorem Working.skips (h : Working handles s e origin)
    (haw : awaited = s.requests.awaitedResponseId)
    (hs : s.filterMsg e = .ordinary ∧ MessageId.valid awaited = true ∨
      s.filterMsg e = .syncResponse ∧ (MessageId.valid awaited = true → e.mid ≠ awaited)) :
    Filed s.requests e ∧ Passed handles s.view e := by
  have hfits := s.filterMsg_fits e
  -- an ordinary message is skipped while a response is awaited, a response while another one is
  rcases hs with ⟨hfilter, hvalid⟩ | ⟨hfilter, hne⟩
  · rw [hfilter] at hfits
    have hresp : MessageId.isResponse e.mid = false := hfits
    refine ⟨⟨fun hr => ?_, not_isSys_of_ordinary hfilter⟩, ?_⟩
    · rw [hresp] at hr
      cases hr
    · unfold Passed view
      cases hp : s.requests.pendingResponses with
      | nil =>
        rw [haw, Requests.awaitedResponseId, hp] at hvalid
        exact absurd hvalid (by decide)
      | cons pr prs =>
        obtain ⟨-, -, hpr⟩ := h.known.valid_awaited hp
        intro he
        rw [he, hpr] at hresp
        cases hresp
  · rw [hfilter] at hfits
    have hawaits : s.requests.awaits e.mid = true := hfits.2
    refine ⟨⟨fun _ => h.known.issued _ hawaits, not_isSys_of_response hfilter⟩, ?_⟩
    unfold Passed view
    cases hp : s.requests.pendingResponses with
    | nil => simp [Requests.awaits, hp] at hawaits
    | cons pr prs =>
      obtain ⟨haw', hvalid, -⟩ := h.known.valid_awaited hp
      rw [haw, haw'] at hne
      exact hne hvalid

/-- An ordinary message reaches the behavior only if no response is pending. -/
theorem Working.ordinary {hadTimeout : Bool} {ptr : Option MailboxElement}
    (h : Working handles s e origin) (haw : awaited = s.requests.awaitedResponseId)
    (hfilter : s.filterMsg e = .ordinary) (hvalid : MessageId.valid awaited = false)
    (hv : s'.visited = s.visited) (hu : s'.unvisited = s.unvisited) (hview : s'.view = s.view)
    (hc : s'.current = some e) :
    Running handles ⟨s', s'.view, e.serial⟩ origin (.message hadTimeout ptr) := by
  have hresp : MessageId.isResponse e.mid = false := by
    have hfits := s.filterMsg_fits e
    rw [hfilter] at hfits
    exact hfits
  have hnil : s.requests.pendingResponses = [] := by
    cases hp : s.requests.pendingResponses with
    | nil => rfl
    | cons pr prs =>
      obtain ⟨haw', hpr, -⟩ := h.known.valid_awaited hp
      rw [haw, haw', hpr] at hvalid
      cases hvalid
  obtain ⟨hswept, hmailbox, hcache⟩ := h.position hv hu hview
  refine ⟨hswept, hmailbox, hcache, fun _ _ _ => ⟨?_, fun x hx => ?_⟩, ?_⟩
  · rw [hview]
    exact hnil
  · have hx' : x ∈ s'.current := hx
    rw [hc] at hx'
    cases hx'
    exact ⟨rfl, hresp, not_isSys_of_ordinary hfilter⟩
  · rintro x (hj | hj) <;> cases hj

/-- Invoking a message keeps the actor tidy. -/
theorem Working.invoked (h : Working handles s e origin)
    (hf : ∀ b k, b.handlers = .forwarding → handles b k = true)
    (hmig : e.content = .migrateFrom → s.migratedFrom = true → s.visited = [] ∨
      ∃ b ∈ s.behaviors.head?, b.handlers = .forwarding)
    (haw : awaited = s.requests.awaitedResponseId) (hi : s.Invoked e origin awaited s') :
    Known s' ∧ Phased handles ⟨s', s'.view, e.serial⟩ := by
  have hinv : ∀ job, Known (s.invoke e origin job) := fun job => h.known.congr rfl fun x hx => hx
  cases hi with
  | dropped => exact ⟨known_dropped h.known origin, phased_dropped h.rests h.swept⟩
  | @replied content =>
    have hk : Known (s.send [e.reply content]) := h.known.congr rfl fun x hx => hx
    exact ⟨known_dropped hk origin, phased_dropped (s := s.send _) h.rests h.swept⟩
  | skipped hsk =>
    obtain ⟨hfile, hpass⟩ := h.skips haw hsk
    exact ⟨known_skipped h.known hfile origin, phased_skipped h.rests h.swept hpass⟩
  | saveState hsys =>
    refine ⟨h.known.congr rfl fun x hx => hx, h.runs rfl rfl rfl (by simp) fun _ _ => ?_⟩
    exact h.origin_eq hsys
  | loadState hsys hc =>
    obtain rfl := h.origin_eq hsys
    refine ⟨h.known.congr rfl fun x hx => hx, h.loads hf (hmig hc), fun _ => h.rests, ?_, ?_, ?_⟩
    · rintro mid ⟨⟩
    · rintro hadTimeout ptr ⟨⟩
    · exact fun _ _ => rfl
  | @exit rsn => exact ⟨known_success (h.known.quit rsn), phased_success _⟩
  | timeout =>
    refine ⟨h.known.congr rfl fun x hx => hx, h.runs rfl rfl rfl (by simp) ?_⟩
    rintro x (hj | hj) <;> cases hj
  | message hfilter hvalid =>
    refine ⟨h.known.congr rfl fun x hx => hx, ?_⟩
    exact h.ordinary haw hfilter hvalid rfl rfl rfl rfl
  | response | syncTimeout =>
    refine ⟨hinv _, h.runs rfl rfl rfl (by simp) ?_⟩
    rintro x (hj | hj) <;> cases hj
  | arrived => exact ⟨known_success ((hinv _).markArrived awaited _), phased_success _⟩

-- -------------------------
-- Steps
-- -------------------------

/-- What an actor keeps in order. -/
structure Tidy (handles : Behavior → Nat → Bool) (t : ScannedActor) : Prop where
  known : Known t.actor
  phased : Phased handles t

/-- An actor that takes a message is working on it. -/
theorem Tidy.working {s₁ : EventBasedActor} (h : Tidy handles t)
    (ht : t.actor.Takes s₁ e origin awaited) : Working handles s₁ e origin ∧
      awaited = s₁.requests.awaitedResponseId := by
  -- the four places a message is taken from
  have hph := h.phased
  unfold Phased at hph
  cases ht with
  | mailbox hp =>
    rw [hp] at hph
    exact ⟨⟨h.known.congr rfl fun x hx => hx, hph.2, hph.1, nofun⟩, rfl⟩
  | high hp =>
    rw [hp] at hph
    exact ⟨⟨h.known.congr rfl fun x hx => hx, hph.2, hph.1, nofun⟩, rfl⟩
  | first hp =>
    rw [hp] at hph
    exact ⟨⟨h.known.congr rfl fun x hx => hx, hph.2, hph.1, nofun⟩, rfl⟩
  | @cache _ unvisited mid hp hun =>
    rw [hp] at hph
    have hmem : ∀ x ∈ t.actor.visited ++ unvisited, x ∈ t.actor.visited ++ t.actor.unvisited := by
      intro x hx
      rw [hun, List.mem_append, List.mem_cons]
      rcases List.mem_append.mp hx with hx | hx
      · exact .inl hx
      · exact .inr (.inr hx)
    refine ⟨⟨h.known.congr rfl hmem, hph.2, hph.1, fun _ _ => ?_⟩, hph.1⟩
    exact (h.known.filed e (by simp [hun])).2

/-- Only a behavior that forwards messages is removed. -/
theorem forwards_of_migratesCleanly (h : migratesCleanly t .next = true)
    (hp : t.actor.phase.takes = true) (he : t.actor.nextElement = some e)
    (hc : e.content = .migrateFrom)
    (hm : t.actor.migratedFrom = true) : t.actor.visited = [] ∨
      ∃ b ∈ t.actor.behaviors.head?, b.handlers = .forwarding := by
  have hclean : t.actor.visited.isEmpty = true ∨
      t.actor.behaviors.head?.any (·.handlers = .forwarding) = true := by
    cases hphase : t.actor.phase with
    | ready | filling | scanning mid => simpa [migratesCleanly, hphase, he, hc, hm] using h
    | initializing | invoking origin job | failed eptr job | onExit inTry | closed | exited =>
      rw [hphase] at hp
      cases hp
  refine hclean.imp List.isEmpty_iff.mp fun hany => ?_
  obtain ⟨b, hb, hfw⟩ := (Option.any_eq_true _ _).mp hany
  exact ⟨b, hb, by simpa using hfw⟩

/-- Taking a message records the behaviors it is offered to. -/
theorem record_next : t.record .next s' =
    ⟨s', s'.view, (t.actor.nextElement.map (·.serial)).getD 0⟩ := if_pos rfl

/-- Taking a message keeps a tidy actor tidy. -/
theorem Tidy.takes {s₁ : EventBasedActor} (h : Tidy handles t)
    (hf : ∀ b k, b.handlers = .forwarding → handles b k = true)
    (hok : migratesCleanly t .next = true) (ht : t.actor.Takes s₁ e origin awaited)
    (hi : s₁.Invoked e origin awaited s') : Tidy handles (t.record .next s') := by
  obtain ⟨hwork, haw⟩ := h.working ht
  rw [record_next, ht.nextElement]
  obtain ⟨mailbox, first, unvisited, rfl⟩ := ht.eq
  obtain ⟨hk, hph⟩ := hwork.invoked hf
    (fun hc hm => forwards_of_migratesCleanly hok ht.takes ht.nextElement hc hm) haw hi
  exact ⟨hk, hph⟩

/-- Reading the mailbox does too. -/
theorem Tidy.reads (h : Tidy handles t) (hr : t.actor.Reads s') :
    Tidy handles (t.record .next s') := by
  rw [record_next]
  have hph := h.phased
  unfold Phased at hph
  cases hr with
  | start hp | nothing hp | fill hp | empty hp =>
    simp only [hp] at hph
    refine ⟨h.known.congr rfl fun x hx => hx, ?_⟩
    simp only [Phased, hp]
    exact hph
  | scanned hp hun =>
    simp only [hp] at hph
    exact ⟨h.known.congr rfl fun x hx => hx, hun, hph.2⟩

/-- A new request has an id of its own. -/
theorem Known.request (h : Known s) (mp : MessagePriority)
    (hn : MessageId.isRequest (s.requests.lastRequestId + 1) = true) :
    Known { s with requests := (s.requests.newRequestId mp).2 } := by
  have hnew : ∀ mid, s.requests.Issued mid → (s.requests.newRequestId mp).2.Issued mid :=
    fun mid hi => hi.newRequestId hn
  refine ⟨fun mid ha => ?_, fun e he => ⟨fun hr => ?_, (h.filed e he).2⟩⟩
  · have ha' : (s.requests.newRequestId mp).2.awaits mid = true := ha
    rcases Requests.awaits_newRequestId.mp ha' with rfl | ha
    · exact ⟨_, hn, Nat.le_refl _, rfl⟩
    · exact hnew mid (h.issued mid ha)
  · exact hnew e.mid ((h.filed e he).1 hr)

theorem Known.handler (h : Known s) (mid : MessageId) (bhvr : Behavior) :
    Known { s with requests := s.requests.setResponseHandler mid bhvr } := by
  refine ⟨fun m ha => ?_, h.filed⟩
  exact h.issued m (by rwa [Requests.awaits_setResponseHandler] at ha)

/-- What user code does keeps the cache filed. -/
theorem Known.act {a : Action} (h : Known s) (hn : s.numbersRequests (.act a) = true) :
    Known (s.act a) := by
  cases a with
  | request mp => exact h.request mp hn
  | setResponseHandler mid bhvr => exact h.handler mid bhvr
  | become bhvr discardOld =>
    obtain ⟨mailbox, enqueued, sent, he⟩ := s.become_eq bhvr discardOld
    rw [he]
    exact h.congr rfl fun x hx => hx
  | makeResponsePromise =>
    obtain ⟨current, promises, he, -⟩ := s.keepPromise_eq
    rw [show s.act .makeResponsePromise = s.keepPromise from rfl, he]
    exact h.congr rfl fun x hx => hx
  | unbecome | quit rsn | trapExit value | onSyncFailure value | isMigratedFrom value
  | relay r => exact h.congr rfl fun x hx => hx

theorem record_of_ne (hl : l ≠ .next) : t.record l s' = ⟨s', t.before, t.serial⟩ := if_neg hl

/-- User code keeps a tidy actor tidy. -/
theorem Tidy.act {a : Action} (h : Tidy handles t) (hp : t.actor.phase.running = true)
    (hn : t.actor.numbersRequests (.act a) = true) :
    Tidy handles ⟨t.actor.act a, t.before, t.serial⟩ := by
  refine ⟨h.known.act hn, ?_⟩
  obtain ⟨hvis, hun, hphase, hcur⟩ := act_frame t.actor a
  have hph := h.phased
  unfold Phased at hph ⊢
  dsimp only
  rw [hphase]
  -- what the phase says does not depend on what the action changes
  cases hphase' : t.actor.phase with
  | initializing =>
    rw [hphase'] at hph
    exact ⟨hvis.trans hph.1, hun.trans hph.2⟩
  | invoking origin job =>
    rw [hphase'] at hph
    refine ⟨?_, fun ho => hun.trans (hph.mailbox ho), hph.cache, fun hadTimeout ptr hj => ?_,
      hph.sys⟩
    · show Swept handles t.before (t.actor.act a).visited
      rw [hvis]
      exact hph.swept
    · obtain ⟨hnil, hcurrent⟩ := hph.message hadTimeout ptr hj
      refine ⟨hnil, current_frame hcurrent (fun e he => ?_) hcur⟩
      refine ⟨he.1, by simpa using he.2.1, fun hsys => he.2.2 ?_⟩
      exact ⟨by simpa using hsys.1, hsys.2⟩
  | onExit inTry => trivial
  | failed eptr job =>
    cases job with
    | none => trivial
    | some job =>
      rw [hphase'] at hph
      show Swept handles t.before (t.actor.act a).visited
      rw [hvis]
      exact hph
  | ready | filling | scanning mid | closed | exited =>
    rw [hphase'] at hp
    cases hp

-- -------------------------
-- The end of user code
-- -------------------------

/-- A result that is wrapped into a response is filed. -/
theorem Known.wrapped (h : Known s) {current : Option MailboxElement}
    {promises : List ResponsePromise} {sent : List Reply} :
    Known { s with current, promises, sent, requests := s.wrapped o } := by
  cases o with
  | messageId mid =>
    unfold EventBasedActor.wrapped
    dsimp only
    split
    · exact (h.handler mid ⟨none, .wrapper⟩).congr rfl fun x hx => hx
    · exact h.congr rfl fun x hx => hx
  | skip | void | value | actorExited rsn | thrown => exact h.congr rfl fun x hx => hx

theorem Known.postProcess (h : Known s) : Known (s.postProcess o).2 := by
  obtain ⟨current, promises, sent, he, -⟩ := s.postProcess_eq o
  rw [he]
  exact h.wrapped

/-- An ordinary message was skipped, and user code has not changed what the actor waits for. -/
theorem Running.skipped {hadTimeout : Bool} {ptr : Option MailboxElement}
    (h : Running handles t origin (.message hadTimeout ptr))
    (hp : t.actor.phase = .invoking origin (.message hadTimeout ptr))
    (hskip : skipsCleanly handles t (.ret .skip) = true) :
    Swept handles t.actor.view t.actor.visited ∧ Rests t.actor origin ∧
      ∀ e ∈ t.actor.current, Filed t.actor.requests e ∧ Passed handles t.actor.view e := by
  have hreturns : Outcome.throws .skip = false := rfl
  have hskip : (∀ b ∈ t.before.1.head?, handles b t.serial = false) ∧
      t.actor.view = t.before := by
    simpa [skipsCleanly, hp, hreturns, Option.all_eq_true] using hskip
  obtain ⟨hnot, hview⟩ := hskip
  obtain ⟨hnil, hcurrent⟩ := h.message hadTimeout ptr rfl
  refine ⟨?_, ?_, fun e he => ?_⟩
  · rw [hview]
    exact h.swept
  · cases origin with
    | mailbox => exact h.mailbox rfl
    | cache mid =>
      refine (h.cache mid rfl).trans ?_
      rw [← hview]
      rfl
  · obtain ⟨hserial, hresp, hnsys⟩ := hcurrent e he
    refine ⟨⟨fun hr => ?_, hnsys⟩, ?_⟩
    · rw [hresp] at hr
      cases hr
    · rw [hview]
      unfold Passed
      rw [hnil]
      exact ⟨hresp, fun b hb => by rw [hserial, hnot b hb]⟩

theorem tidy_finishResponse (h : Known s) (ptr : Option MailboxElement) :
    Tidy handles ⟨s.finishResponse awaited ptr, v, n⟩ :=
  ⟨known_success (h.markArrived awaited ptr), phased_success _⟩

/-- A handler is set for a new request. -/
theorem Known.syncSendThen {bhvr : Behavior} (h : Known s)
    (hn : MessageId.isRequest (s.requests.lastRequestId + 1) = true) :
    Known { s with requests := s.requests.syncSendThen .normal bhvr } :=
  (h.request .normal hn).handler (MessageId.responseId (s.requests.newRequestId .normal).1) bhvr

/-- What was skipped before a request has other ids than the response to it. -/
theorem Swept.syncSendThen {bhvr : Behavior} (h : Known s)
    (hn : MessageId.isRequest (s.requests.lastRequestId + 1) = true) :
    Swept handles (s.behaviors, (s.requests.syncSendThen .normal bhvr).pendingResponses)
      s.visited := by
  intro e he
  rw [Requests.syncSendThen_normal]
  show e.mid ≠ MessageId.responseId (s.requests.lastRequestId + 1)
  intro heq
  have hresp : MessageId.isResponse e.mid = true := by
    rw [heq]
    exact MessageId.isResponse_responseId hn
  have hissued := (h.filed e (List.mem_append_left _ he)).1 hresp
  exact hissued.ne_new hn heq

/-- An exception keeps a tidy actor tidy. -/
theorem Tidy.caught {job : Option Job} (h : Tidy handles t)
    (hj : ∀ x, job = some x → Swept handles t.before t.actor.visited) :
    Tidy handles ⟨t.actor.caught o job, t.before, t.serial⟩ := by
  obtain ⟨plannedExitReason, eptr, he⟩ := t.actor.caught_eq o job
  rw [he]
  refine ⟨h.known.congr rfl fun x hx => hx, ?_⟩
  cases job with
  | none => trivial
  | some x => exact hj x rfl

theorem Tidy.running {job : Job} (h : Tidy handles t) (hp : t.actor.phase = .invoking origin job) :
    Running handles t origin job := by
  have hph := h.phased
  unfold Phased at hph
  rw [hp] at hph
  exact hph

/-- The end of user code keeps a tidy actor tidy. -/
theorem Tidy.ret (h : Tidy handles t) (hn : t.actor.numbersRequests (.ret o) = true)
    (hskip : skipsCleanly handles t (.ret o) = true) (hmig : migratesCleanly t (.ret o) = true)
    (hr : t.actor.Returned o s') : Tidy handles ⟨s', t.before, t.serial⟩ := by
  -- one case for each way in which user code ends
  cases hr with
  | initialized hp _ hphase =>
    have hph := h.phased
    unfold Phased at hph
    rw [hp] at hph
    refine ⟨h.known.congr rfl fun x hx => hx, ?_⟩
    rcases hphase with ⟨-, rfl⟩ | ⟨-, rfl⟩
    · trivial
    · refine ⟨hph.2, fun x hx => ?_⟩
      have hx' : x ∈ t.actor.visited := hx
      rw [hph.1] at hx'
      cases hx'
  | caught _ hp =>
    refine h.caught fun x hx => ?_
    rcases hp with ⟨-, rfl⟩ | ⟨origin, job, hp, -⟩
    · cases hx
    · exact (h.running hp).swept
  | cleanup =>
    refine ⟨⟨fun mid ha => ?_, nofun⟩, trivial⟩
    simp [Requests.awaits, EventBasedActor.cleanup] at ha
  | handled =>
    refine ⟨known_success ?_, phased_success _⟩
    exact h.known.postProcess.congr rfl fun x hx => hx
  | @skipped origin hadTimeout ptr e hp ho hc =>
    subst ho
    obtain ⟨hswept, hrests, hcurrent⟩ := (h.running hp).skipped hp hskip
    obtain ⟨hfile, hpass⟩ := hcurrent e hc
    have hk : Known { t.actor with
        current := ptr, hasTimeout := hadTimeout || t.actor.hasTimeout } :=
      h.known.congr rfl fun x hx => hx
    exact ⟨known_skipped hk hfile origin, phased_skipped hrests hswept hpass⟩
  | gone hp ho =>
    subst ho
    obtain ⟨hswept, hrests, -⟩ := (h.running hp).skipped hp hskip
    exact ⟨h.known.congr rfl fun x hx => hx, hrests, hswept⟩
  | response => exact tidy_finishResponse h.known.postProcess _
  | failure hp =>
    have hrun := h.running hp
    refine ⟨h.known.congr rfl fun x hx => hx, hrun.swept, hrun.mailbox, hrun.cache, ?_, ?_⟩
    · rintro hadTimeout ptr ⟨⟩
    · rintro x (hj | hj) <;> cases hj
  | unhandled => exact tidy_finishResponse (h.known.quit _) _
  | arrived => exact tidy_finishResponse h.known _
  | timeout => exact ⟨known_success h.known, phased_success _⟩
  | @saved origin e hp ho =>
    obtain rfl := (h.running hp).sys e (.inl rfl)
    have hreq : MessageId.isRequest (t.actor.requests.lastRequestId + 1) = true := by
      simpa [numbersRequests, hp, ho] using hn
    refine ⟨known_dropped (h.known.syncSendThen hreq) .mailbox, ?_⟩
    exact phased_dropped ((h.running hp).mailbox rfl) (Swept.syncSendThen h.known hreq)
  | @loaded origin e hp ho =>
    obtain rfl := (h.running hp).sys e (.inr rfl)
    have hk : Known (t.actor.send [e.reply (.system true)]) := h.known.congr rfl fun x hx => hx
    refine ⟨known_dropped hk .mailbox, phased_dropped ((h.running hp).mailbox rfl) ?_⟩
    show Swept handles t.actor.view t.actor.visited
    -- after `load_state` the behaviors are others, so nothing may have been skipped before
    have hclean : t.actor.visited = [] ∨ t.actor.view = t.before := by
      simpa [migratesCleanly, hp, ho] using hmig
    rcases hclean with hnil | hview
    · rw [hnil]
      exact fun x hx => absurd hx List.not_mem_nil
    · rw [hview]
      exact (h.running hp).swept

-- -------------------------
-- Runs
-- -------------------------

/-- Steps that change neither the cache nor the view nor the phase. -/
theorem Tidy.congr (h : Tidy handles t) (hq : s'.requests = t.actor.requests)
    (hb : s'.behaviors = t.actor.behaviors) (hvis : s'.visited = t.actor.visited)
    (hun : s'.unvisited = t.actor.unvisited) (hc : s'.current = t.actor.current)
    (hp : s'.phase = t.actor.phase) : Tidy handles ⟨s', t.before, t.serial⟩ := by
  have hview : s'.view = t.actor.view := by
    unfold view
    rw [hq, hb]
  refine ⟨h.known.congr hq fun x hx => by rwa [hvis, hun] at hx, ?_⟩
  have hph := h.phased
  unfold Phased at hph ⊢
  dsimp only
  rw [hp, hvis, hun, hview, hq]
  cases hphase : t.actor.phase with
  | invoking origin job =>
    rw [hphase] at hph
    refine ⟨?_, fun ho => hun.trans (hph.mailbox ho), hph.cache, fun hadTimeout ptr hj => ?_,
      hph.sys⟩
    · show Swept handles t.before s'.visited
      rw [hvis]
      exact hph.swept
    · show t.before.2 = [] ∧ ∀ e ∈ s'.current, _
      rw [hc]
      exact hph.message hadTimeout ptr hj
  | failed eptr job =>
    rw [hphase] at hph
    cases job with
    | none => trivial
    | some job => exact hph
  | initializing | ready | filling | scanning mid | onExit inTry | closed | exited =>
    rw [hphase] at hph
    exact hph

/-- So does an exit handler. -/
theorem Tidy.handle {rsn : Option ExitReason} {eptr : Bool} {job : Option Job}
    (h : Tidy handles t) (hrev : revivesCleanly t (.handle rsn) = true)
    (hp : t.actor.phase = .failed eptr job) (hs : t.actor.handle rsn = some s')
    (hq : s'.requests = t.actor.requests) (hb : s'.behaviors = t.actor.behaviors)
    (hvis : s'.visited = t.actor.visited ++ t.actor.unvisited) (hun : s'.unvisited = [])
    (hphase : s'.phase = .onExit false ∨ s'.phase = .ready) :
    Tidy handles ⟨s', t.before, t.serial⟩ := by
  refine ⟨h.known.congr hq fun x hx => by simpa [hvis, hun] using hx, ?_⟩
  have hph := h.phased
  unfold Phased at hph ⊢
  rw [hp] at hph
  dsimp only
  -- the handler may revive the actor, and then the cache is scanned from its start
  rcases hphase with hphase | hphase
  · rw [hphase]
    trivial
  · rw [hphase]
    have hclean : t.actor.unvisited = [] ∧
        (t.actor.visited = [] ∨ job.isSome = true ∧ t.actor.view = t.before) := by
      simpa [revivesCleanly, hp, hs, hphase] using hrev
    obtain ⟨hu, hv⟩ := hclean
    refine ⟨hun, fun x hx => ?_⟩
    rw [hvis, hu, List.append_nil] at hx
    rcases hv with hv | ⟨hj, hview⟩
    · rw [hv] at hx
      cases hx
    · obtain ⟨job, rfl⟩ := Option.isSome_iff_exists.mp hj
      have hsame : s'.view = t.actor.view := by
        unfold view
        rw [hq, hb]
      rw [hsame, hview]
      exact hph x hx

/-- Every careful step keeps a tidy actor tidy. -/
theorem Tidy.step (hf : ∀ b k, b.handlers = .forwarding → handles b k = true)
    (h : Tidy handles t) (hok : Careful handles t l) (hstep : t.step l = some t') :
    Tidy handles t' := by
  obtain ⟨s', hs, rfl⟩ := Option.map_eq_some_iff.mp hstep
  obtain ⟨hn, hskip, hmig, hrev⟩ := hok
  -- one case for each step of the actor
  cases step_cases hs with
  | takes ht hi => exact h.takes hf hmig ht hi
  | reads hr => exact h.reads hr
  | @enqueue sender mid content =>
    obtain ⟨mailbox, enqueued, sent, he⟩ := t.actor.enqueue_eq sender mid content
    rw [record_of_ne (by simp), he]
    exact h.congr rfl rfl rfl rfl rfl rfl
  | act hp =>
    rw [record_of_ne (by simp)]
    exact h.act hp hn
  | ret hr =>
    rw [record_of_ne (by simp)]
    exact h.ret hn hskip hmig hr
  | resetTimeout =>
    obtain ⟨mailbox, enqueued, sent, he⟩ := requestTimeout_eq t.actor
      (t.actor.getBehavior.bind (·.timeout))
    rw [record_of_ne (by simp), he]
    exact h.congr rfl rfl rfl rfl rfl rfl
  | block =>
    rw [record_of_ne (by simp)]
    exact h.congr rfl rfl rfl rfl rfl rfl
  | handle hp hphase =>
    rw [record_of_ne (by simp)]
    exact h.handle hrev hp hs rfl rfl rfl rfl (hphase.imp_right fun hr => hr.1)
  | exit =>
    rw [record_of_ne (by simp)]
    exact ⟨h.known.congr rfl fun x hx => hx, trivial⟩
  | deliver =>
    rw [record_of_ne (by simp)]
    exact h.congr rfl rfl rfl rfl rfl rfl

/-- In every careful run the actor is tidy. -/
theorem tidy (hf : ∀ b k, b.handlers = .forwarding → handles b k = true)
    (h : Reachable (Careful handles) t) : Tidy handles t := by
  refine Reach.invariant (fun t h0 => ?_) (fun t l t' ht hok hs => ht.step hf hok hs) h
  obtain ⟨ref, priorityAware, serializable, h0⟩ := h0
  refine ⟨?_, ?_⟩
  · rw [h0]
    exact ⟨nofun, nofun⟩
  · unfold Phased
    rw [h0]
    exact ⟨rfl, rfl⟩

/-- What the behaviors of an actor handle: those after a migration forward everything. -/
def accepts (user : Behavior → Nat → Bool) (b : Behavior) (k : Nat) : Bool :=
  b.handlers = .forwarding || user b k

/-- No message is left behind: whenever the actor is about to wait, the current behavior handles
no message that it has skipped, and the awaited response is not among them. -/
theorem nothing_left_behind (user : Behavior → Nat → Bool)
    (h : Reachable (Careful (accepts user)) t) (hp : t.actor.phase = .ready) :
    ∀ e ∈ t.actor.visited ++ t.actor.unvisited, ¬ wants (accepts user) t.actor.view e := by
  have hph := (tidy (fun b k hb => by simp [accepts, hb]) h).phased
  unfold Phased at hph
  rw [hp] at hph
  intro e he
  rw [hph.1, List.append_nil] at he
  exact (hph.2 e he).not_wants

/-- Behaviors that handle one message each. -/
def Sample.byNumber (b : Behavior) (k : Nat) : Bool := b.handlers = .user k

/-- A handler exchanges the behavior, but the new one does not handle the old message either. -/
theorem nothing_left_behind_exchanged : ∃ t : ScannedActor,
    Reachable (Careful (accepts Sample.byNumber)) t ∧ t.actor.phase = .ready ∧
    ∃ e, t.actor.visited = [e] ∧ ¬ wants (accepts Sample.byNumber) t.actor.view e := by
  obtain ⟨t, hr, hs⟩ := exists_run
    (fun t l => if Careful (accepts Sample.byNumber) t l then step t l else none)
    ⟨.initial 1 false false, ([], []), 0⟩
    [.act (.become ⟨none, .user 1⟩ false), .ret .void, .enqueue (.localActor 7) 0 .user, .next,
      .ret .skip, .enqueue (.localActor 7) 0 .user, .next, .act (.become ⟨none, .user 2⟩ true),
      .ret .void, .next, .ret .skip, .next]
    (fun t => decide (t.actor.phase = .ready) &&
      decide (t.actor.visited = [⟨0, .localActor 7, 0, .user⟩]))
    (by decide)
  have h : Reachable (Careful (accepts Sample.byNumber)) t :=
    reach_of_checked_run (.init ⟨1, false, false, rfl⟩) hr
  rw [Bool.and_eq_true, decide_eq_true_eq, decide_eq_true_eq] at hs
  have hleft := nothing_left_behind Sample.byNumber h hs.1
  exact ⟨t, h, hs.1, _, hs.2, hleft _ (by simp [hs.2])⟩

/-- `load_state` sets a behavior that handles a message which the actor has skipped before: the
actor does not look at it again. -/
theorem left_behind_by_load_state : ¬ ∀ (user : Behavior → Nat → Bool) (t : ScannedActor),
    Reachable (fun t l => skipsCleanly (accepts user) t l = true) t → t.actor.phase = .ready →
    ∀ e ∈ t.actor.visited ++ t.actor.unvisited, ¬ wants (accepts user) t.actor.view e := by
  intro hall
  obtain ⟨t, hr, hs⟩ := exists_run
    (fun t l => if skipsCleanly (accepts Sample.byNumber) t l = true then step t l else none)
    ⟨.initial 1 true true, ([], []), 0⟩
    [.act (.become ⟨none, .user 1⟩ false), .ret .void, .enqueue (.localActor 7) 0 .user, .next,
      .next, .next, .ret .skip, .enqueue (.localActor 7) 0 .migrateFrom, .next, .next, .next,
      .act (.become ⟨none, .user 0⟩ true), .ret .void, .next, .next, .block]
    (fun t => decide (t.actor.phase = .ready) &&
      decide (t.actor.visited = [⟨0, .localActor 7, 0, .user⟩]) &&
      decide (t.actor.view = ([⟨none, .user 0⟩], [])))
    (by decide)
  have h : Reachable (fun t l => skipsCleanly (accepts Sample.byNumber) t l = true) t :=
    reach_of_checked_run (.init ⟨1, true, true, rfl⟩) hr
  rw [Bool.and_eq_true, Bool.and_eq_true, decide_eq_true_eq, decide_eq_true_eq,
    decide_eq_true_eq] at hs
  obtain ⟨⟨hp, hvis⟩, hview⟩ := hs
  refine hall _ t h hp ⟨0, .localActor 7, 0, .user⟩ (by simp [hvis]) ?_
  rw [hview]
  exact ⟨by decide, ⟨none, .user 0⟩, rfl, rfl⟩

end ScannedActor

end BoostActor
