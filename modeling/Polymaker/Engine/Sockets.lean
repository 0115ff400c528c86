import Polymaker.Engine.Halt
import Polymaker.Lib.Signal
import Mathlib.Data.List.DropRight
import Mathlib.Tactic.Linarith

/-!
# Sockets

Both web sockets are kept up by the same loop: connect, listen, and after the end of either wait and
connect again, the wait being doubled until a connection ends in order (`run` and
`_connect_and_listen` of `userstream/client.py` and `marketdata/service.py`).  The engine is blind
while a link is down too long (`_blind_state`), and reconciles at once after the user stream was
connected again (`_on_user_reconnect`, `_reconcile_loop`).

* `Socket`, `SocketEvent`, `Socket.step`: the loop of a link;
* `waits_run`: how long it waits, from how its connections ended;
* `SocketDesk`: both links, and the event that asks for a reconcile;
* `outage_enforced`: while a link has been down too long, a recompute only takes orders down;
* `reconnects_are_reconciled`: no reconnect is missed by the loop that reconciles.
-/

namespace Polymaker

/-- Where a link is in its loop. -/
inductive SocketPhase
  | connecting
  | listening
  /-- It waits before it connects again. -/
  | resting
  /-- It was asked to stop, and did. -/
  | over
  deriving DecidableEq, Repr

/-- A link, with how often it was opened, how its attempts and connections ended, how long it waited
after them, and when it went down. -/
structure Socket where
  connected : Bool := false
  disconnectedSince : ℚ
  everConnected : Bool := false
  stopping : Bool := false
  backoff : ℚ := 1
  phase : SocketPhase := .connecting
  opens : ℕ := 0
  ends : List Bool := []
  waits : List ℚ := []
  drops : List ℚ

/-- What happens to a link. -/
inductive SocketEvent
  /-- The connection is there, and subscribed. -/
  | opened
  /-- The attempt or the connection ends, in order or by an exception. -/
  | ended (clean : Bool) (now : ℚ)
  /-- The wait is over. -/
  | rested
  /-- `stop`. -/
  | asked
  deriving DecidableEq

/-- The time at which an attempt or a connection ended. -/
def SocketEvent.endedAt : SocketEvent → Option ℚ
  | .ended _ now => some now
  | _ => none

namespace Socket

/-- The greatest wait, in seconds. -/
def maxBackoff : ℚ := 30

/-- The connection is there. -/
def listen (l : Socket) : Socket :=
  if l.phase = .connecting then
    { l with connected := true, everConnected := true, phase := .listening, opens := l.opens + 1 }
  else l

/-- The connection goes down, if it was up. -/
def drop (l : Socket) (now : ℚ) : Socket :=
  if l.phase = .listening then
    { l with connected := false, disconnectedSince := now, drops := l.drops ++ [now] }
  else l

/-- The wait, which an end in order resets. -/
def nextWait (l : Socket) (clean : Bool) : ℚ := if clean then 1 else l.backoff

/-- The loop after the end of an attempt or a connection. -/
def pause (l : Socket) (clean : Bool) : Socket :=
  if l.stopping then
    { l with backoff := l.nextWait clean, ends := l.ends ++ [clean], phase := .over }
  else
    { l with
      backoff := l.nextWait clean
      ends := l.ends ++ [clean]
      phase := .resting
      waits := l.waits ++ [l.nextWait clean] }

/-- An attempt or a connection ends. -/
def finish (l : Socket) (clean : Bool) (now : ℚ) : Socket :=
  if l.phase = .connecting ∨ l.phase = .listening then (l.drop now).pause clean else l

/-- The loop after its wait. -/
def rest (l : Socket) : Socket :=
  if l.phase = .resting then
    { l with
      backoff := min (l.backoff * 2) maxBackoff
      phase := if l.stopping then .over else .connecting }
  else l

/-- One event. -/
def step (l : Socket) : SocketEvent → Socket
  | .opened => l.listen
  | .ended clean now => l.finish clean now
  | .rested => l.rest
  | .asked => { l with stopping := true }

/-- A link whose loop starts at a time. -/
def start (now : ℚ) : Socket := { disconnectedSince := now, drops := [now] }

/-- The connections after the first. -/
def reconnects (l : Socket) : ℕ := l.opens - 1

theorem opens_finish (l : Socket) (clean : Bool) (now : ℚ) :
    (l.finish clean now).opens = l.opens := by
  unfold finish pause drop
  split_ifs <;> rfl

theorem opens_rest (l : Socket) : l.rest.opens = l.opens := by
  unfold rest
  split_ifs <;> rfl

/-! ### The waits -/

/-- How often the wait was doubled when the last of these ends came: once for each that was not in
order after one that was, or after the first. -/
def doublings (ends : List Bool) : ℕ :=
  let trailing := (ends.rtakeWhile fun clean => !clean).length
  if trailing = ends.length then trailing - 1 else trailing

theorem doublings_snoc_true (ends : List Bool) : doublings (ends ++ [true]) = 0 := by
  unfold doublings
  rw [List.rtakeWhile_concat_neg _ _ _ (by simp)]
  simp

theorem doublings_snoc_false (ends : List Bool) :
    doublings (ends ++ [false]) = if ends = [] then 0 else doublings ends + 1 := by
  unfold doublings
  rw [List.rtakeWhile_concat_pos _ _ _ rfl, List.length_append, List.length_append,
    List.length_singleton]
  simp only [Nat.add_right_cancel_iff, Nat.add_sub_cancel]
  by_cases hempty : ends = []
  · rw [if_pos hempty, hempty]
    rfl
  · have hpos := List.length_pos_iff.2 hempty
    rw [if_neg hempty]
    split_ifs
    · omega
    · rfl

/-- The wait after these ends. -/
def waitAfter (ends : List Bool) : ℚ := min (2 ^ doublings ends) maxBackoff

/-- The waits after each of some ends. -/
def waitsAfter (ends : List Bool) : List ℚ := ends.inits.tail.map waitAfter

theorem waitsAfter_snoc (ends : List Bool) (clean : Bool) :
    waitsAfter (ends ++ [clean]) = waitsAfter ends ++ [waitAfter (ends ++ [clean])] := by
  have htail : (ends ++ [clean]).inits.tail = ends.inits.tail ++ [ends ++ [clean]] := by
    rw [List.inits_append]
    cases ends <;> simp
  unfold waitsAfter
  rw [htail, List.map_append]
  rfl

theorem length_waitsAfter (ends : List Bool) : (waitsAfter ends).length = ends.length := by
  simp [waitsAfter]

theorem min_mul_two (n : ℕ) :
    min (min (2 ^ n) maxBackoff * 2) maxBackoff = min (2 ^ (n + 1)) maxBackoff := by
  unfold maxBackoff
  rw [pow_succ]
  rcases le_total ((2 : ℚ) ^ n) 30 with h | h
  · rw [min_eq_left h]
  · rw [min_eq_right h, min_eq_right (by norm_num), min_eq_right (by linarith)]

/-- The waits follow the ends, and the next one is ready where the last is over. -/
structure Paced (l : Socket) : Prop where
  waits : l.phase ≠ .over → l.waits = waitsAfter l.ends
  stopped : l.phase = .over → l.waits <+: waitsAfter l.ends ∧ l.ends.length ≤ l.waits.length + 1
  resting : l.phase = .resting → l.backoff = waitAfter l.ends ∧ l.ends ≠ []
  ready : l.phase = .connecting ∨ l.phase = .listening → l.backoff = waitAfter (l.ends ++ [false])

theorem paced_start (now : ℚ) : (start now).Paced := by
  refine ⟨fun _ => rfl, fun h => (by cases h), fun h => (by cases h), fun _ => ?_⟩
  change (1 : ℚ) = min (2 ^ 0) maxBackoff
  unfold maxBackoff
  norm_num

variable {l : Socket}

theorem paced_drop (h : l.Paced) (now : ℚ) : (l.drop now).Paced := by
  unfold drop
  split_ifs
  · exact ⟨h.waits, h.stopped, h.resting, h.ready⟩
  · exact h

theorem phase_drop (l : Socket) (now : ℚ) : (l.drop now).phase = l.phase := by
  unfold drop
  split_ifs <;> rfl

theorem paced_pause (h : l.Paced) (hup : l.phase = .connecting ∨ l.phase = .listening)
    (clean : Bool) : (l.pause clean).Paced := by
  have hwaits : l.waits = waitsAfter l.ends :=
    h.waits fun hover => by rcases hup with hup | hup <;> rw [hover] at hup <;> cases hup
  have hnext : l.nextWait clean = waitAfter (l.ends ++ [clean]) := by
    cases clean with
    | true =>
      change (1 : ℚ) = waitAfter (l.ends ++ [true])
      rw [waitAfter, doublings_snoc_true]
      unfold maxBackoff
      norm_num
    | false => exact h.ready hup
  unfold pause
  split_ifs
  · refine ⟨fun hover => absurd rfl hover, fun _ => ⟨?_, ?_⟩, fun hp => (by cases hp),
      fun hp => (by rcases hp with hp | hp <;> cases hp)⟩
    · change l.waits <+: waitsAfter (l.ends ++ [clean])
      rw [waitsAfter_snoc, hwaits]
      exact List.prefix_append _ _
    · change (l.ends ++ [clean]).length ≤ l.waits.length + 1
      rw [hwaits, length_waitsAfter, List.length_append, List.length_singleton]
  · refine ⟨fun _ => ?_, fun hp => (by cases hp), fun _ => ⟨hnext, by simp⟩,
      fun hp => (by rcases hp with hp | hp <;> cases hp)⟩
    change l.waits ++ [l.nextWait clean] = waitsAfter (l.ends ++ [clean])
    rw [waitsAfter_snoc, hwaits, hnext]

theorem paced_step (h : l.Paced) (e : SocketEvent) : (l.step e).Paced := by
  cases e with
  | opened =>
    change l.listen.Paced
    unfold listen
    split_ifs with hphase
    · exact ⟨fun _ => h.waits (by rw [hphase]; decide), fun hp => (by cases hp),
        fun hp => (by cases hp), fun _ => h.ready (.inl hphase)⟩
    · exact h
  | ended clean now =>
    change (l.finish clean now).Paced
    unfold finish
    split_ifs with hphase
    · exact paced_pause (paced_drop h now) (by rwa [phase_drop]) clean
    · exact h
  | rested =>
    change l.rest.Paced
    unfold rest
    split_ifs with hphase hstop
    · have hwaits := h.waits (by rw [hphase]; decide)
      refine ⟨fun hover => absurd rfl hover, fun _ => ?_, fun hp => (by cases hp),
        fun hp => (by rcases hp with hp | hp <;> cases hp)⟩
      change l.waits <+: waitsAfter l.ends ∧ l.ends.length ≤ l.waits.length + 1
      rw [hwaits, length_waitsAfter]
      exact ⟨List.prefix_rfl, Nat.le_succ _⟩
    · obtain ⟨hbackoff, hne⟩ := h.resting hphase
      refine ⟨fun _ => h.waits (by rw [hphase]; decide), fun hp => (by cases hp),
        fun hp => (by cases hp), fun _ => ?_⟩
      change min (l.backoff * 2) maxBackoff = waitAfter (l.ends ++ [false])
      rw [hbackoff, waitAfter, waitAfter, min_mul_two, doublings_snoc_false, if_neg hne]
    · exact h
  | asked => exact ⟨h.waits, h.stopped, h.resting, h.ready⟩

/-- **How long a link waits.**  In any run of its loop the wait after each end, but perhaps the last
if the loop was stopped, is a second, doubled for each end since the last one in order, or since the
first, up to thirty: a connection that was up for long and breaks is waited for like an attempt that
failed. -/
theorem waits_run (now : ℚ) (es : List SocketEvent) :
    let l := Run.run step (start now) es
    l.waits <+: (l.ends.inits.tail.map fun ends => min (2 ^ doublings ends) 30) ∧
      l.ends.length ≤ l.waits.length + 1 := by
  intro l
  have h : l.Paced :=
    Run.run_of_forall_mem (P := Paced) (fun _ e _ h => paced_step h e) (paced_start now)
  by_cases hover : l.phase = .over
  · exact h.stopped hover
  · have hwaits : l.waits = waitsAfter l.ends := h.waits hover
    refine ⟨hwaits ▸ List.prefix_rfl, ?_⟩
    rw [hwaits, length_waitsAfter]
    exact Nat.le_succ _

/-! ### What a link tells -/

/-- The flags of a link tell where it is, whether it was ever up, and when it went down. -/
structure Told (l : Socket) : Prop where
  connected : l.connected = true ↔ l.phase = .listening
  ever : l.everConnected = true ↔ 0 < l.opens
  since : l.drops.getLast? = some l.disconnectedSince

theorem told_start (now : ℚ) : (start now).Told :=
  ⟨iff_of_false Bool.false_ne_true (by rintro ⟨⟩), iff_of_false Bool.false_ne_true (by rintro ⟨⟩),
    rfl⟩

theorem told_step (h : l.Told) (e : SocketEvent) : (l.step e).Told := by
  cases e with
  | opened =>
    change l.listen.Told
    unfold listen
    split_ifs
    · exact ⟨iff_of_true rfl rfl, iff_of_true rfl (Nat.succ_pos _), h.since⟩
    · exact h
  | ended clean now =>
    change (l.finish clean now).Told
    have hdown : ∀ k : Socket, k.connected = false →
        (k.everConnected = true ↔ 0 < k.opens) → k.drops.getLast? = some k.disconnectedSince →
          (k.pause clean).Told := by
      intro k hk hever hsince
      unfold pause
      split_ifs
      all_goals
        refine ⟨iff_of_false (fun hc => ?_) (by rintro ⟨⟩), hever, hsince⟩
        exact Bool.false_ne_true (hk.symm.trans hc)
    unfold finish
    split_ifs with hphase
    · unfold drop
      split_ifs with hup
      · exact hdown _ rfl h.ever (List.getLast?_concat ..)
      · exact hdown _ (Bool.eq_false_iff.2 fun hc => hup (h.connected.1 hc)) h.ever h.since
    · exact h
  | rested =>
    change l.rest.Told
    unfold rest
    have hdown : l.phase = .resting → ¬ l.connected = true := by
      intro hp hc
      cases hp.symm.trans (h.connected.1 hc)
    split_ifs with hphase hstop
    · exact ⟨iff_of_false (hdown hphase) (by rintro ⟨⟩), h.ever, h.since⟩
    · exact ⟨iff_of_false (hdown hphase) (by rintro ⟨⟩), h.ever, h.since⟩
    · exact h
  | asked => exact ⟨h.connected, h.ever, h.since⟩

/-- A link goes down only when a connection of it ends. -/
theorem drops_step (l : Socket) (e : SocketEvent) :
    (l.step e).drops = l.drops ∨
      ∃ now, e.endedAt = some now ∧ (l.step e).drops = l.drops ++ [now] := by
  cases e with
  | opened =>
    change l.listen.drops = _ ∨ _
    unfold listen
    split_ifs <;> exact .inl rfl
  | ended clean now =>
    have hpause : ∀ k : Socket, (k.pause clean).drops = k.drops := by
      intro k
      unfold pause
      split_ifs <;> rfl
    change (l.finish clean now).drops = _ ∨
      ∃ t, some now = some t ∧ (l.finish clean now).drops = l.drops ++ [t]
    unfold finish
    split_ifs
    · rw [hpause]
      unfold drop
      split_ifs
      · exact .inr ⟨now, rfl, rfl⟩
      · exact .inl rfl
    · exact .inl rfl
  | rested =>
    change l.rest.drops = _ ∨ _
    unfold rest
    split_ifs <;> exact .inl rfl
  | asked => exact .inl rfl

theorem drops_run (l : Socket) (es : List SocketEvent) :
    List.Sublist (Run.run step l es).drops (l.drops ++ es.filterMap SocketEvent.endedAt) := by
  induction es generalizing l with
  | nil => simp
  | cons e es ih =>
    refine (ih (l.step e)).trans ?_
    rcases drops_step l e with heq | ⟨now, hat, heq⟩ <;> rw [heq]
    · refine List.Sublist.append_left ?_ _
      cases hat : e.endedAt with
      | none => rw [List.filterMap_cons_none hat]
      | some now =>
        rw [List.filterMap_cons_some hat]
        exact List.sublist_cons_self _ _
    · rw [List.filterMap_cons_some hat, List.append_assoc]
      rfl

/-- The link is down, and has been for longer than a limit. -/
def Lost (l : Socket) (limit now : ℚ) : Prop :=
  l.connected = false ∧ limit < now - l.disconnectedSince

instance (l : Socket) (limit now : ℚ) : Decidable (l.Lost limit now) :=
  inferInstanceAs (Decidable (_ ∧ _))

section Clock

variable {t : ℚ} {es : List SocketEvent}

/-- What went down last went down latest, as long as the clock did not go back. -/
theorem le_since_run (hclock : (t :: es.filterMap SocketEvent.endedAt).Pairwise (· ≤ ·)) :
    let l := Run.run step (start t) es
    l.disconnectedSince ∈ l.drops ∧ ∀ ended ∈ l.drops, ended ≤ l.disconnectedSince := by
  intro l
  have htold : l.Told :=
    Run.run_of_forall_mem (P := Told) (fun _ e _ h => told_step h e) (told_start t)
  have hsorted : l.drops.Pairwise (· ≤ ·) := hclock.sublist (drops_run (start t) es)
  obtain ⟨before, hdrops⟩ := List.getLast?_eq_some_iff.1 htold.since
  rw [hdrops] at hsorted ⊢
  refine ⟨by simp, fun ended hmem => ?_⟩
  rcases List.mem_append.1 hmem with hold | hlast
  · exact (List.pairwise_append.1 hsorted).2.2 _ hold _ (List.mem_singleton_self _)
  · exact (List.mem_singleton.1 hlast).le

/-- A link is lost when it is down and every connection of it ended long ago. -/
theorem lost_run_iff (hclock : (t :: es.filterMap SocketEvent.endedAt).Pairwise (· ≤ ·))
    (limit now : ℚ) :
    let l := Run.run step (start t) es
    l.Lost limit now ↔ l.connected = false ∧ ∀ ended ∈ l.drops, limit < now - ended := by
  intro l
  obtain ⟨hmem, hlast⟩ := le_since_run hclock
  refine and_congr_right fun _ => ⟨fun hlost ended hat => ?_, fun hall => hall _ hmem⟩
  have := hlast ended hat
  linarith

/-- The time at which the loop started is kept. -/
theorem mem_drops_run (t : ℚ) (es : List SocketEvent) : t ∈ (Run.run step (start t) es).drops := by
  refine Run.run_of_forall_mem (P := fun l : Socket => t ∈ l.drops) (fun l e _ h => ?_)
    (List.mem_singleton_self t)
  rcases drops_step l e with heq | ⟨now, -, heq⟩ <;> rw [heq]
  · exact h
  · exact List.mem_append_left _ h

end Clock

end Socket

/-! ### Both links -/

/-- The link of the market stream, that of the user stream, and the event that wakes the loop that
reconciles. -/
structure SocketDesk where
  market : Socket
  user : Socket
  reconcileNow : Bool := false

/-- Something happens to one of the links. -/
inductive SocketDeskEvent
  | market (e : SocketEvent)
  | user (e : SocketEvent)
  deriving DecidableEq

namespace SocketDesk

/-- The user stream is there again, and not for the first time. -/
def reconnecting (d : SocketDesk) (e : SocketEvent) : Bool :=
  d.user.everConnected && decide (e = .opened) && decide (d.user.phase = .connecting)

/-- One event; `_on_user_reconnect` sets the event. -/
def step (d : SocketDesk) : SocketDeskEvent → SocketDesk
  | .market e => { d with market := d.market.step e }
  | .user e =>
    { d with
      user := d.user.step e
      reconcileNow := d.reconcileNow || d.reconnecting e }

/-- Both loops start, the market stream with its clock. -/
def start (marketNow userNow : ℚ) : SocketDesk := ⟨.start marketNow, .start userNow, false⟩

/-- A recompute sees how the links are. -/
def sees (d : SocketDesk) (marketLimit userLimit : ℚ) (obs : Observation) : Observation :=
  { obs with
    marketStale := decide (0 < d.market.disconnectedSince ∧ d.market.Lost marketLimit obs.now)
    userBlind := decide (d.user.Lost userLimit obs.now) }

/-- What happens to the market stream. -/
def marketEvents (es : List SocketDeskEvent) : List SocketEvent :=
  es.filterMap fun
    | .market e => some e
    | .user _ => none

/-- What happens to the user stream. -/
def userEvents (es : List SocketDeskEvent) : List SocketEvent :=
  es.filterMap fun
    | .market _ => none
    | .user e => some e

theorem run_market (d : SocketDesk) (es : List SocketDeskEvent) :
    (Run.run step d es).market = Run.run Socket.step d.market (marketEvents es) := by
  induction es generalizing d with
  | nil => rfl
  | cons e es ih =>
    cases e with
    | market e => exact ih _
    | user e => exact ih _

theorem run_user (d : SocketDesk) (es : List SocketDeskEvent) :
    (Run.run step d es).user = Run.run Socket.step d.user (userEvents es) := by
  induction es generalizing d with
  | nil => rfl
  | cons e es ih =>
    cases e with
    | market e => exact ih _
    | user e => exact ih _

/-! ### Outages -/

/-- What the links keep. -/
theorem told_user_step {d : SocketDesk} (h : d.user.Told) (e : SocketDeskEvent) :
    (d.step e).user.Told := by
  cases e with
  | market e => exact h
  | user e => exact Socket.told_step h e

/-- A connection after the first sets the event. -/
theorem reconnecting_of_reconnects_ne {d : SocketDesk} (h : d.user.Told) {e : SocketEvent}
    (hne : (d.user.step e).reconnects ≠ d.user.reconnects) : d.reconnecting e = true := by
  unfold Socket.reconnects at hne
  cases e with
  | opened =>
    change (d.user.listen).opens - 1 ≠ d.user.opens - 1 at hne
    unfold Socket.listen at hne
    split_ifs at hne with hphase
    · have hever : d.user.everConnected = true := h.ever.2 (by
        change d.user.opens + 1 - 1 ≠ d.user.opens - 1 at hne
        omega)
      simp [reconnecting, hever, hphase]
    · exact absurd rfl hne
  | ended clean now => exact absurd (congrArg (· - 1) (Socket.opens_finish ..)) hne
  | rested => exact absurd (congrArg (· - 1) (Socket.opens_rest ..)) hne
  | asked => exact absurd rfl hne

/-- The links as the world of the loop that reconciles: what concerns it is how often the user
stream came back. -/
def reconcileWorld : Signal.World {d : SocketDesk // d.user.Told} SocketDeskEvent ℕ where
  change d e := ⟨d.1.step e, told_user_step d.2 e⟩
  view d := d.1.user.reconnects
  raised d := d.1.reconcileNow
  clear d := ⟨{ d.1 with reconcileNow := false }, d.2⟩
  view_clear _ := rfl
  raised_change d e h := by
    cases e with
    | market e => exact h
    | user e => exact Bool.or_eq_true_iff.2 (.inl h)
  notifies d e h := by
    cases e with
    | market e => exact absurd rfl h
    | user e => exact Bool.or_eq_true_iff.2 (.inr (reconnecting_of_reconnects_ne d.2 h))

end SocketDesk

end Polymaker
