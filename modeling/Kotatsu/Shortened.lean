import Kotatsu.Provenance

/-
  A run without the other rooms

  `shortened m url log` runs the log again without what concerns rooms other than `m`:
  the requests for them, and the packets of the addresses that present a token of one of
  them (`outsiders`). What a packet or a request that is left out would have set off is
  left out with it; the clocks, the cleanup passes, the drawn identifiers and the
  schedule stay as they are. It is `none` if the server refused a step that stays.

  `observed` is what a step shows to the room: the responses to its requests, its events,
  and the packets that are sent to anyone but an outsider.
-/

namespace Kotatsu

open Machine (eventsOf)

/-! ## What concerns a room -/

/-- The event is the issue of this token, for a room that `f` accepts. -/
def Event.issuesFor (token : String) (f : String → Bool) : Event → Bool
  | .ticketIssued _ resp _ => resp.token == token && f resp.matchId
  | _ => false

/-- The addresses that present a token of another room than `m`. -/
def outsiders (m : String) (log : Log) : List SocketAddr :=
  log.filterMap fun x =>
    match x.action with
    | .recv _ addr (.reliable (.join token)) =>
      if (eventsOf log).any (·.issuesFor token (· != m)) then some addr else none
    | _ => none

/-- The room that a request is for. -/
def Action.room : Action → Option String
  | .createRoom uuid _ => some (matchIdOf uuid)
  | .getRoom matchId => some matchId
  | .issueJoinTicket req _ _ _ => some req.matchId
  | .startRoom matchId _ _ => some matchId
  | .finishRoom matchId _ _ => some matchId
  | .deleteRoom matchId => some matchId
  | _ => none

/-- The action stays in the run of `m` without the outsiders `F`. A task takes its steps
if that run has it, where `s` is the state of the whole run and `t` of the shorter one. -/
def stays (m : String) (F : List SocketAddr) (s t : Sys) : Action → Bool
  | .recv _ addr _ => addr ∉ F
  | .join tid _ => t.joins.contains tid
  | .param tid _ => t.params.contains tid
  | .cast cid _ => t.casts.contains cid
  | .relay tid _ => t.relays.contains tid
  | .drainStep _ =>
    match s.drain with
    | some (.take (addr :: _)) => addr ∉ F
    | some (.send session _ _) => session.addr ∉ F
    | _ => true
  | a =>
    match a.room with
    | some m' => m' == m
    | none => true

/-- The outgoing task passes over the sessions that are left; it takes no message of an
outsider. -/
def Action.without (F : List SocketAddr) : Action → Action
  | .drainStart order => .drainStart (order.filter (· ∉ F))
  | a => a

def shortStep (m : String) (F : List SocketAddr) (r : Sys × Log)
    (x : Moment Sys Action Event) : Option (Sys × Log) :=
  if stays m F x.before r.1 x.action then
    (server.recorded.step r.1 (x.action.without F)).map fun q => (q.1, r.2 ++ q.2)
  else
    some r

/-- The run again, without what concerns other rooms than `m`. -/
def shortened (m udpPublicUrl : String) (log : Log) : Option (Sys × Log) :=
  log.foldlM (shortStep m (outsiders m log)) (Sys.init udpPublicUrl, [])

/-! ## What a room sees -/

/-- The room sees the event, where `a` is the action that emits it. -/
def Event.visible (m : String) (F : List SocketAddr) (a : Action) : Event → Bool
  | .listed _ => true
  | .refused _ _ => a.room == some m
  | .roomCreated resp _ => resp.matchId == m
  | .ticketIssued _ resp _ => resp.matchId == m
  | .got room => room.matchId == m
  | .finished resp => resp.matchId == m
  | .roomStarted m' _ _ _ | .roomRemoved m' | .registered m' _ _ _ | .registerRefused m' _ _
  | .seatRemoved m' _ | .paramUpdated m' _ _ _ _ _ | .paramRefused m' _ _ _ _ _ => m' == m
  | .sentReliable addr _ | .sentDatagram addr _ => addr ∉ F
  | .ticketPresented _ _ _ | .enqueued _ _ => false

/-- Of a listing the room sees its own entry. -/
def Event.shownTo (m : String) : Event → Event
  | .listed rooms => .listed (rooms.filter (·.matchId == m))
  | e => e

def observed (m : String) (F : List SocketAddr) (x : Moment Sys Action Event) : List Event :=
  (x.events.filter (·.visible m F x.action)).map (·.shownTo m)

/-! ## Outsiders -/

/-- No address that presents a token of `m` presents one of another room. -/
def Exclusive (m : String) (log : Log) : Prop :=
  ∀ a p token, Presented log a token → Issued (eventsOf log) m p token → a ∉ outsiders m log

theorem issuesFor_iff {token : String} {f : String → Bool} {tr : List Event} :
    tr.any (·.issuesFor token f) = true ↔ ∃ m p, Issued tr m p token ∧ f m = true := by
  rw [List.any_eq_true]
  constructor
  · intro h
    obtain ⟨e, he, hi⟩ := h
    cases e with
    | ticketIssued req resp now =>
      simp only [Event.issuesFor, Bool.and_eq_true, beq_iff_eq] at hi
      exact ⟨resp.matchId, resp.playerId, ⟨req, resp, now, he, rfl, rfl, hi.1⟩, hi.2⟩
    | _ => cases hi
  · intro h
    obtain ⟨m, p, ⟨req, resp, now, he, rfl, -, rfl⟩, hf⟩ := h
    refine ⟨_, he, ?_⟩
    simp [Event.issuesFor, hf]

theorem mem_outsiders {m : String} {log : Log} {a : SocketAddr} : a ∈ outsiders m log ↔
    ∃ token m' p, Presented log a token ∧ Issued (eventsOf log) m' p token ∧ m' ≠ m := by
  rw [outsiders, List.mem_filterMap]
  constructor
  · intro h
    obtain ⟨x, hx, ha⟩ := h
    split at ha
    · next tid addr token hact =>
      split at ha
      · next hissued =>
        cases ha
        obtain ⟨m', p, hi, hne⟩ := issuesFor_iff.mp hissued
        exact ⟨token, m', p, ⟨x, hx, tid, hact⟩, hi, bne_iff_ne.mp hne⟩
      · cases ha
    · cases ha
  · intro h
    obtain ⟨token, m', p, ⟨x, hx, tid, hact⟩, hi, hne⟩ := h
    have hissued : (eventsOf log).any (·.issuesFor token (· != m)) = true :=
      issuesFor_iff.mpr ⟨m', p, hi, bne_iff_ne.mpr hne⟩
    refine ⟨x, hx, ?_⟩
    rw [hact]
    exact if_pos hissued

theorem exclusive_iff {m : String} {log : Log} : Exclusive m log ↔
    (log.all fun x =>
      match x.action with
      | .recv _ addr (.reliable (.join token)) =>
        addr ∉ outsiders m log || !(eventsOf log).any (·.issuesFor token (· == m))
      | _ => true) = true := by
  rw [List.all_eq_true]
  constructor
  · intro h x hx
    split
    · next tid addr token hact =>
      rw [Bool.or_eq_true, decide_eq_true_iff, Bool.not_eq_true', or_iff_not_imp_right]
      intro hissued
      obtain ⟨m', p, hi, hm⟩ := issuesFor_iff.mp (Bool.not_eq_false _ ▸ hissued)
      obtain rfl := beq_iff_eq.mp hm
      exact h addr p token ⟨x, hx, tid, hact⟩ hi
    · rfl
  · intro h a p token hp hi
    obtain ⟨x, hx, tid, hact⟩ := hp
    have hx' := h x hx
    rw [hact] at hx'
    have hissued : (eventsOf log).any (·.issuesFor token (· == m)) = true :=
      issuesFor_iff.mpr ⟨m, p, hi, beq_self_eq_true m⟩
    simpa [hissued] using hx'

instance (m : String) (log : Log) : Decidable (Exclusive m log) :=
  decidable_of_iff _ exclusive_iff.symm

/-- The addresses in `F` are on the other side: what an address presents is for another
room than `m` exactly if the address is in `F`. -/
def Divides (m : String) (F : List SocketAddr) (log : Log) : Prop :=
  ∀ a token m' p, Presented log a token → Issued (eventsOf log) m' p token → (a ∈ F ↔ m' ≠ m)

theorem outsiders_divide {m : String} {log : Log} (h : Exclusive m log) :
    Divides m (outsiders m log) log := by
  intro a token m' p hp hi
  constructor
  · intro ha heq
    subst heq
    exact h a p token hp hi ha
  · intro hne
    exact mem_outsiders.mpr ⟨token, m', p, hp, hi, hne⟩

theorem Divides.before {m : String} {F : List SocketAddr} {log log' : Log}
    (h : Divides m F (log ++ log')) : Divides m F log := by
  intro a token m' p hp hi
  refine h a token m' p (hp.mono _) ?_
  rw [Machine.eventsOf_append]
  exact hi.mono _

/-- Who has joined a room is on its side. -/
theorem Divides.joined {m : String} {F : List SocketAddr} {log : Log} (h : Divides m F log)
    {a : SocketAddr} {m' p : String} (hj : Joined log a m' p) : a ∈ F ↔ m' ≠ m := by
  obtain ⟨token, hp, hi, -⟩ := hj
  exact h a token m' p hp hi

end Kotatsu
