import Kotatsu.ClientRuns

/-
  What has arrived at the clients

  `arrivalsAt log a` is what the network has brought to the client at `a`, in order, as the
  deliveries of the run have it. The statistics come from that alone (`Account`): a datagram
  counts when it arrives; a message counts when the client takes it, and until then it waits
  behind those that came before it. Only a message that the reader has in hand when its
  client returns is lost. So it is over any run (`accounted`).
-/

namespace Kotatsu.TestClient

open Machine (eventsOf)

/-- A run of the world, moment by moment. -/
abbrev WorldLog := List (Moment World WorldAction (Moment Sys Action Event))

/-! ## Arrivals -/

/-- What a step brings to the client. -/
def ClientAction.brings (c : Client) : ClientAction → Option Arrival
  | .recv packet => c.arrival packet
  | _ => none

/-- What a step of the world brings, and to which address. -/
def arrivalIn (w : World) : WorldAction → Option (SocketAddr × Arrival)
  | .deliver i =>
    (w.toClients[i]?).bind fun r =>
      (w.clients.get r.1).bind fun c => (c.arrival r.2).map fun x => (r.1, x)
  | _ => none

def arrivalsAt (log : WorldLog) (a : SocketAddr) : List Arrival :=
  (log.filterMap fun x => arrivalIn x.before x.action).filterMap fun r =>
    if r.1 = a then some r.2 else none

theorem arrivalsAt_snoc (log : WorldLog) (x : Moment World WorldAction (Moment Sys Action Event))
    (a : SocketAddr) : arrivalsAt (log ++ [x]) a = arrivalsAt log a ++
      ((arrivalIn x.before x.action).toList.filterMap fun r =>
        if r.1 = a then some r.2 else none) := by
  rw [arrivalsAt, List.filterMap_append, List.filterMap_append]
  congr 1

def Arrival.message? : Arrival → Option ServerReliable
  | .message msg => some msg
  | _ => none

def Arrival.player? : Arrival → Option String
  | .datagram p => some p
  | _ => none

/-- The messages among the arrivals, and the players of the datagrams. -/
def messagesOf (xs : List Arrival) : List ServerReliable := xs.filterMap Arrival.message?

def playersOf (xs : List Arrival) : List String := xs.filterMap Arrival.player?

theorem mem_messagesOf {xs : List Arrival} {msg : ServerReliable} :
    msg ∈ messagesOf xs ↔ Arrival.message msg ∈ xs := by
  rw [messagesOf, List.mem_filterMap]
  constructor
  · intro h
    obtain ⟨x, hx, hmsg⟩ := h
    cases x <;> cases hmsg
    exact hx
  · intro h
    exact ⟨_, h, rfl⟩

theorem mem_playersOf {xs : List Arrival} {p : String} :
    p ∈ playersOf xs ↔ Arrival.datagram p ∈ xs := by
  rw [playersOf, List.mem_filterMap]
  constructor
  · intro h
    obtain ⟨x, hx, hp⟩ := h
    cases x <;> cases hp
    exact hx
  · intro h
    exact ⟨_, h, rfl⟩

/-! ## The account of a client -/

def isApplied : ServerReliable → Bool
  | .paramApplied .. => true
  | _ => false

def isAppliedTo (playerId : String) : ServerReliable → Bool
  | .paramApplied p _ _ _ _ => p == playerId
  | _ => false

def isCooldown : ServerReliable → Bool
  | .error code message => code == "param_update_failed" && startsWith message "cooldown_active:"
  | _ => false

/-- What the reader has read and the client has not taken. -/
def Client.waiting (c : Client) : List ServerReliable :=
  match c.reader with
  | .handing msg => c.queue ++ [msg]
  | _ => c.queue

/-- The statistics of a client are those of its arrivals, of which it has taken `taken`. -/
structure Account (xs : List Arrival) (c : Client) (st : ClientStats)
    (taken : List ServerReliable) : Prop where
  messages : messagesOf xs = taken ++ c.waiting ∨
    c.reader = .ended ∧ ∃ msg, messagesOf xs = taken ++ c.waiting ++ [msg]
  answered : ∃ params, Arrival.answer params ∈ xs
  applied : st.paramAppliedCount = taken.countP isApplied
  datagrams : st.datagramCount = (playersOf xs).length
  players : ∀ p, p ∈ st.datagramFromPlayers ↔ p ∈ playersOf xs
  observed : st.observedParamState.isSome = taken.any (isAppliedTo c.join.playerId)
  cooldown : st.cooldownErrorSeen = (c.triggerParamUpdate && taken.any isCooldown)

/-- Nothing is lost before the reader ends. -/
theorem Account.held {xs : List Arrival} {c : Client} {st : ClientStats}
    {taken : List ServerReliable} (h : Account xs c st taken) (hr : c.reader ≠ .ended) :
    messagesOf xs = taken ++ c.waiting := by
  rcases h.messages with heq | ⟨hended, -⟩
  · exact heq
  · exact absurd hended hr

/-- An untaken message is the last one that was read, or it waits. -/
theorem Account.untaken {xs : List Arrival} {c : Client} {st : ClientStats}
    {taken : List ServerReliable} (h : Account xs c st taken) {msg : ServerReliable}
    (hmsg : msg ∈ messagesOf xs) (hno : msg ∉ taken) :
    msg ∈ c.waiting ∨ c.reader = .ended ∧ (messagesOf xs).getLast? = some msg := by
  rcases h.messages with heq | ⟨hended, last, heq⟩
  · rw [heq] at hmsg
    exact .inl ((List.mem_append.mp hmsg).resolve_left hno)
  · rw [heq, List.append_assoc] at hmsg
    rcases List.mem_append.mp ((List.mem_append.mp hmsg).resolve_left hno) with hmsg | hmsg
    · exact .inl hmsg
    · rw [List.mem_singleton.mp hmsg, heq, List.getLast?_concat]
      exact .inr ⟨hended, rfl⟩

section Steps
variable {text : F32 → Number} {c c' : Client} {stats stats' : Stats} {act : ClientAction}
  {sent : List UdpPacket}

/-- A step of a client touches its own entry only. -/
theorem stats_others (h : ClientStep text c stats act c' stats' sent) {p : String}
    (hp : p ≠ c.join.playerId) : stats'.get p = stats.get p := by
  cases h with
  | joined _ _ | counted _ _ _ _ => exact HashMap.get_insert_ne _ _ hp
  | @took next msg queue _ _ =>
    cases msg with
    | paramApplied _ _ _ _ _ => exact HashMap.get_insert_ne _ _ hp
    | error code message =>
      simp only [Client.hear]
      split
      · exact HashMap.get_insert_ne _ _ hp
      · rfl
    | joinOk _ _ _ _ | matchStarted _ _ _ => rfl
  | _ => rfl

/-- A client without a reader waits for the answer to its join, and for nothing else. -/
theorem step_off (hc : c.Steady) (hoff : c.reader = .off)
    (h : ClientStep text c stats act c' stats' sent) :
    (c'.reader = .off ∧ c'.queue = c.queue ∧ stats' = stats ∧ act.brings c = none) ∨
      ∃ packet m params ms, act = .recv packet ∧
        parseReliable packet = some (.joinOk m c.join.playerId params ms) ∧
        act.brings c = some (.answer params) ∧ c'.reader = .receiving ∧ c'.queue = c.queue ∧
        stats' = stats.update c.join.playerId fun st => { st with joinParams := some params } := by
  have hspawned : ∀ {r : Reader}, c.reader = r → r ≠ .off → False :=
    fun hr hne => hne (hr.symm.trans hoff)
  cases h with
  | sent _ | sendFailed _ | recvFailed _ => exact .inl ⟨hoff, rfl, rfl, rfl⟩
  | @joined packet m params ms ht hm =>
    refine .inr ⟨packet, m, params, ms, rfl, hm, ?_, rfl, rfl, rfl⟩
    simp [ClientAction.brings, Client.arrival, ht, hm, answerFor]
  | joinedOther ht hm hne =>
    refine .inl ⟨hoff, rfl, rfl, ?_⟩
    simp [ClientAction.brings, Client.arrival, ht, hm, answerFor, hne]
  | refused ht hm =>
    refine .inl ⟨hoff, rfl, rfl, ?_⟩
    simp [ClientAction.brings, Client.arrival, ht, hm, answerFor]
  | ignored hn => exact .inl ⟨hoff, rfl, rfl, hn⟩
  | read _ hr _ | counted _ hr _ _ | readerEnded hr | handOverFailed hr | handed hr =>
    exact (hspawned hr Reader.noConfusion).elim
  | drained hd => exact absurd hoff (hc.drains hd)
  | took hd _ => exact absurd hoff (hc.drains hd)
  | woke ht => exact absurd hoff (hc.joined (by simp [ht]) (by simp [ht]) (by simp [ht]))

/-- What a message that is taken does to the entry. -/
def Client.entered (c : Client) (st : ClientStats) : ServerReliable → ClientStats
  | .paramApplied p _ params next _ => st.countApplied (p == c.join.playerId) params next
  | .error code message =>
    if c.triggerParamUpdate && isCooldown (.error code message) then
      { st with cooldownErrorSeen := true }
    else st
  | .joinOk .. | .matchStarted .. => st

theorem hear_entry {st : ClientStats} (hst : stats.get c.join.playerId = some st)
    (msg : ServerReliable) :
    (c.hear stats msg).get c.join.playerId = some (c.entered st msg) := by
  cases msg with
  | paramApplied p seq params next ms =>
    simp [Client.hear, Client.entered, Stats.update, hst]
  | error code message =>
    simp only [Client.hear, Client.entered, isCooldown, ← Bool.and_assoc]
    split
    · simp [Stats.update, hst]
    · exact hst
  | joinOk _ _ _ _ | matchStarted _ _ _ => exact hst

theorem entered_datagrams (st : ClientStats) (msg : ServerReliable) :
    (c.entered st msg).datagramCount = st.datagramCount ∧
      (c.entered st msg).datagramFromPlayers = st.datagramFromPlayers := by
  cases msg with
  | error code message =>
    simp only [Client.entered]
    split <;> exact ⟨rfl, rfl⟩
  | _ => exact ⟨rfl, rfl⟩

theorem entered_applied (st : ClientStats) (msg : ServerReliable) :
    (c.entered st msg).paramAppliedCount =
      st.paramAppliedCount + if isApplied msg then 1 else 0 := by
  cases msg with
  | error code message =>
    simp only [Client.entered]
    split <;> rfl
  | _ => rfl

theorem account_taken {xs : List Arrival} {st : ClientStats} {taken : List ServerReliable}
    (h : Account xs c st taken) {msg : ServerReliable} {queue : List ServerReliable}
    (hq : c.queue = msg :: queue) :
    Account xs { c with queue := queue } (c.entered st msg) (taken ++ [msg]) := by
  have hwaiting : taken ++ [msg] ++ Client.waiting { c with queue := queue } =
      taken ++ c.waiting := by
    unfold Client.waiting
    dsimp only
    rw [hq]
    split <;> simp
  refine ⟨?_, h.answered, ?_, ?_, ?_, ?_, ?_⟩
  · rw [hwaiting]
    exact h.messages
  · rw [entered_applied, List.countP_append, List.countP_singleton, h.applied]
  · rw [(entered_datagrams st msg).1, h.datagrams]
  · intro p
    rw [(entered_datagrams st msg).2, h.players]
  · rw [List.any_append, ← h.observed]
    cases msg with
    | paramApplied p seq params next ms =>
      cases hp : p == c.join.playerId <;> simp [Client.entered, ClientStats.countApplied,
        isAppliedTo, hp]
    | error code message =>
      simp only [Client.entered]
      split <;> simp [isAppliedTo]
    | joinOk _ _ _ _ | matchStarted _ _ _ => simp [Client.entered, isAppliedTo]
  · rw [List.any_append, Bool.and_or_distrib_left, ← h.cooldown]
    cases msg with
    | error code message =>
      simp only [Client.entered, List.any_cons, List.any_nil, Bool.or_false]
      split
      · next hcool => simp [hcool]
      · next hcool => simp [Bool.not_eq_true _ ▸ hcool]
    | paramApplied _ _ _ _ _ | joinOk _ _ _ _ | matchStarted _ _ _ =>
      simp [Client.entered, ClientStats.countApplied, isCooldown]

/-- A step of a client with a reader. -/
theorem account_step (hc : c.Steady) (hreader : c.reader ≠ .off) {st : ClientStats}
    (hst : stats.get c.join.playerId = some st) {xs : List Arrival} {taken : List ServerReliable}
    (h : Account xs c st taken) (hs : ClientStep text c stats act c' stats' sent) :
    ∃ st' taken', stats'.get c'.join.playerId = some st' ∧
      Account (xs ++ (act.brings c).toList) c' st' taken' := by
  have hnot : ¬ (c.task = .join ∨ c.task = .joining) := fun ht => hreader (hc.waiting ht)
  have hnil : xs ++ (none : Option Arrival).toList = xs := List.append_nil xs
  cases hs with
  | joined ht _ | joinedOther ht _ _ | refused ht _ | recvFailed ht => exact absurd (.inr ht) hnot
  | sent _ | sendFailed _ | drained _ | woke _ =>
    exact ⟨st, taken, hst, hnil.symm ▸ { h with messages := h.messages }⟩
  | ignored hn =>
    refine ⟨st, taken, hst, ?_⟩
    rw [ClientAction.brings, hn, hnil]
    exact h
  | took _ hq =>
    exact ⟨_, _, hear_entry hst _, hnil.symm ▸ account_taken h hq⟩
  | @read packet msg ht hr hm =>
    have hbrings : (ClientAction.recv packet).brings c = some (.message msg) := by
      rw [ClientAction.brings, Client.arrival, if_neg ht, if_pos hr, hm]
    have hmessages : messagesOf xs = taken ++ c.queue := by
      simpa only [Client.waiting, hr] using h.held (by simp [hr])
    rw [hbrings]
    refine ⟨st, taken, hst, { h with
      messages := .inl ?_
      answered := ?_
      datagrams := ?_
      players := ?_ }⟩
    · rw [messagesOf, List.filterMap_append]
      show messagesOf xs ++ [msg] = taken ++ (c.queue ++ [msg])
      rw [hmessages, List.append_assoc]
    · obtain ⟨params, ha⟩ := h.answered
      exact ⟨params, List.mem_append_left _ ha⟩
    · rw [h.datagrams, playersOf, playersOf, List.filterMap_append]
      exact congrArg List.length (List.append_nil _).symm
    · intro p
      rw [h.players, mem_playersOf, mem_playersOf]
      simp
  | @counted packet out ht hr hm hd =>
    have hbrings : (ClientAction.recv packet).brings c = some (.datagram (playerOf out)) := by
      rw [ClientAction.brings, Client.arrival, if_neg ht, if_pos hr, hm, hd]
      rfl
    have hget : (stats.update c.join.playerId (·.countDatagram (playerOf out))).get
        c.join.playerId = some (st.countDatagram (playerOf out)) := by
      rw [Stats.update, hst, HashMap.get_insert_self]
      rfl
    rw [hbrings]
    refine ⟨_, taken, hget, { h with
      messages := ?_
      answered := ?_
      datagrams := ?_
      players := ?_ }⟩
    · have heq : messagesOf (xs ++ (some (Arrival.datagram (playerOf out))).toList) =
          messagesOf xs := by
        rw [messagesOf, List.filterMap_append]
        exact List.append_nil _
      rw [heq]
      exact h.messages
    · obtain ⟨params, ha⟩ := h.answered
      exact ⟨params, List.mem_append_left _ ha⟩
    · show st.datagramCount + 1 = _
      rw [h.datagrams, playersOf, playersOf, List.filterMap_append, List.length_append]
      rfl
    · intro p
      show p ∈ st.datagramFromPlayers.insert (playerOf out) ↔ _
      rw [List.mem_insert_iff, h.players, mem_playersOf, mem_playersOf, List.mem_append]
      simp [or_comm]
  | readerEnded hr =>
    refine ⟨st, taken, hst, hnil.symm ▸ { h with messages := .inl ?_ }⟩
    simpa only [Client.waiting, hr] using h.held (by simp [hr])
  | @handOverFailed msg hr =>
    refine ⟨st, taken, hst, hnil.symm ▸ { h with messages := .inr ⟨rfl, msg, ?_⟩ }⟩
    simpa only [Client.waiting, hr, ← List.append_assoc] using h.held (by simp [hr])
  | @handed msg hr =>
    refine ⟨st, taken, hst, hnil.symm ▸ { h with messages := .inl ?_ }⟩
    simpa only [Client.waiting, hr] using h.held (by simp [hr])

end Steps

/-! ## The account of every client -/

/-- The clients' statistics are those of their arrivals, `brought`. -/
structure Accounted (w : World) (log : Log) (brought : SocketAddr → List Arrival) : Prop where
  nobody : ∀ {a}, w.clients.get a = none → brought a = []
  waiting : ∀ {a c}, w.clients.get a = some c → c.reader = .off → brought a = [] ∧ c.queue = []
  account : ∀ {a c}, w.clients.get a = some c → c.reader ≠ .off → ∃ st taken,
    w.stats.get c.join.playerId = some st ∧ Account (brought a) c st taken
  /-- A client with a reader has registered its player. -/
  seated : ∀ {a c}, w.clients.get a = some c → c.reader ≠ .off →
    ∃ m tx, Event.registered m c.join.playerId a tx ∈ eventsOf log
  owner : ∀ {p st}, w.stats.get p = some st →
    ∃ a c, w.clients.get a = some c ∧ c.join.playerId = p ∧ c.reader ≠ .off
  heard : ∀ {a msg}, Arrival.message msg ∈ brought a → HeardFrom log a msg

/-- A message that is brought was read from a packet. -/
theorem brought_message {c : Client} {act : ClientAction} {msg : ServerReliable}
    (h : act.brings c = some (.message msg)) :
    ∃ packet, act = .recv packet ∧ parseReliable packet = some msg := by
  cases act with
  | recv packet =>
    refine ⟨packet, rfl, ?_⟩
    simp only [ClientAction.brings, Client.arrival] at h
    split at h
    · -- an answer is no message
      obtain ⟨answer, -, ha⟩ := Option.bind_eq_some_iff.mp h
      cases answer with
      | joinOk _ p _ _ =>
        simp only [answerFor] at ha
        split at ha <;> cases ha
      | _ => cases ha
    · split at h
      · cases hm : parseReliable packet with
        | some read =>
          rw [hm] at h
          cases h
          rfl
        | none =>
          rw [hm] at h
          obtain ⟨out, -, hout⟩ := Option.map_eq_some_iff.mp h
          cases hout
      · cases h
  | _ => cases h

section Runs
variable {text : F32 → Number} {w w' : World} {log : Log} {brought : SocketAddr → List Arrival}

/-- A step that no client makes. -/
theorem accounted_kept (hi : Accounted w log brought) (hstats : w'.stats = w.stats)
    (hfollows : w.Follows w')
    (hclients : ∀ {a c}, w'.clients.get a = some c → w.clients.get a = some c ∨
      w.clients.get a = none ∧ c.reader = .off ∧ c.queue = []) (log' : Log) :
    Accounted w' (log ++ log') brought := by
  refine ⟨?_, ?_, ?_, ?_, ?_, fun hmsg => (hi.heard hmsg).mono log'⟩
  · intro a hnone
    refine hi.nobody (Option.eq_none_iff_forall_ne_some.mpr fun c hc => ?_)
    obtain ⟨c', hc', -⟩ := hfollows a c hc
    rw [hnone] at hc'
    cases hc'
  · intro a c hc hoff
    rcases hclients hc with hold | ⟨hnone, -, hqueue⟩
    · exact hi.waiting hold hoff
    · exact ⟨hi.nobody hnone, hqueue⟩
  · intro a c hc hreader
    rcases hclients hc with hold | ⟨-, hoff, -⟩
    · rw [hstats]
      exact hi.account hold hreader
    · exact absurd hoff hreader
  · intro a c hc hreader
    rcases hclients hc with hold | ⟨-, hoff, -⟩
    · obtain ⟨m, tx, ho⟩ := hi.seated hold hreader
      exact ⟨m, tx, mem_eventsOf_append ho log'⟩
    · exact absurd hoff hreader
  · intro p st hst
    rw [hstats] at hst
    obtain ⟨a, c, hc, hp, hreader⟩ := hi.owner hst
    obtain ⟨c', hc', hgoes⟩ := hfollows a c hc
    exact ⟨a, c', hc', hgoes.join ▸ hp, hgoes.spawned hreader⟩

/-- The account of the client that makes the step. -/
theorem account_moved (h : (world text).Reach Machine.anyStep w log) (hi : Accounted w log brought)
    {a : SocketAddr} {c c' : Client} {stats : Stats} {act : ClientAction} {sent : List UdpPacket}
    (hc : w.clients.get a = some c)
    (hact : ∀ packet, act = .recv packet → (a, packet) ∈ w.toClients)
    (hs : ClientStep text c w.stats act c' stats sent) :
    (c'.reader = .off ∧ brought a ++ (act.brings c).toList = [] ∧ c'.queue = [] ∧
      stats = w.stats) ∨
    (c'.reader ≠ .off ∧ (∃ m tx, Event.registered m c.join.playerId a tx ∈ eventsOf log) ∧
      ∃ st taken, stats.get c'.join.playerId = some st ∧
        Account (brought a ++ (act.brings c).toList) c' st taken) := by
  by_cases hoff : c.reader = .off
  · obtain ⟨hnil, hqueue⟩ := hi.waiting hc hoff
    rcases step_off ((voices h).steady hc) hoff hs with ⟨hoff', hqueue', hstats, hnone⟩ |
      ⟨packet, m, params, ms, rfl, hm, hbrings, hreader, hqueue', rfl⟩
    · refine .inl ⟨hoff', ?_, hqueue'.trans hqueue, hstats⟩
      rw [hnil, hnone]
      rfl
    · obtain ⟨-, tx, ho⟩ := heard_joinOk
        (parse_carried (world_serves h) ((voices h).carried (hact packet rfl)) hm)
      refine .inr ⟨by simp [hreader], ⟨m, tx, ho⟩, ?_⟩
      -- nobody else has made an entry for the player
      have hfresh : w.stats.get c.join.playerId = none := by
        refine Option.eq_none_iff_forall_ne_some.mpr fun st hst => ?_
        obtain ⟨b, d, hd, hp, hreader⟩ := hi.owner hst
        obtain ⟨m', tx', ho'⟩ := hi.seated hd hreader
        rw [hp] at ho'
        obtain ⟨-, rfl, -⟩ := (registry (world_serves h).unrecorded).once ho ho'
        rw [hc] at hd
        obtain rfl := Option.some.inj hd
        exact hreader hoff
      refine ⟨{ ClientStats.default with joinParams := some params }, [], ?_, ?_⟩
      · rw [(client_follows hs).join, Stats.update, hfresh, HashMap.get_insert_self]
        rfl
      · rw [hnil, hbrings]
        have hwaiting : c'.waiting = [] := by
          rw [Client.waiting, hreader]
          exact hqueue'.trans hqueue
        refine ⟨.inl hwaiting.symm, ⟨params, List.mem_singleton_self _⟩, rfl, rfl, ?_, rfl, ?_⟩
        · intro p
          rfl
        · exact (Bool.and_false _).symm
  · obtain ⟨st, taken, hst, haccount⟩ := hi.account hc hoff
    refine .inr ⟨(client_follows hs).spawned hoff, hi.seated hc hoff, ?_⟩
    exact account_step ((voices h).steady hc) hoff hst haccount hs

/-- An entry that was there still has its client, and the client its reader. -/
theorem owner_moved (hi : Accounted w log brought) {a : SocketAddr} {c c' : Client}
    {stats : Stats} {act : ClientAction} {sent : List UdpPacket}
    (hc : w.clients.get a = some c) (hs : ClientStep text c w.stats act c' stats sent)
    {p : String} {st : ClientStats} (hst : w.stats.get p = some st) : ∃ b d,
    (w.moved a c' stats sent).clients.get b = some d ∧ d.join.playerId = p ∧
      d.reader ≠ .off := by
  obtain ⟨b, d, hd, hown, hreader⟩ := hi.owner hst
  by_cases hb : b = a
  · subst hb
    rw [hc] at hd
    obtain rfl := Option.some.inj hd
    exact ⟨b, c', HashMap.get_insert_self _ _ _, (client_follows hs).join ▸ hown,
      (client_follows hs).spawned hreader⟩
  · exact ⟨b, d, (HashMap.get_insert_ne _ _ hb).trans hd, hown, hreader⟩

theorem accounted_moved (h : (world text).Reach Machine.anyStep w log)
    (hi : Accounted w log brought) {a : SocketAddr} {c c' : Client} {stats : Stats}
    {act : ClientAction} {sent : List UdpPacket} (hc : w.clients.get a = some c)
    (hact : ∀ packet, act = .recv packet → (a, packet) ∈ w.toClients)
    (hs : ClientStep text c w.stats act c' stats sent) :
    Accounted (w.moved a c' stats sent) log fun b =>
      brought b ++ if a = b then (act.brings c).toList else [] := by
  have hmoved := account_moved h hi hc hact hs
  have hjoin : c'.join = c.join := (client_follows hs).join
  -- what the others have counted is left alone
  have hothers : ∀ {b d}, b ≠ a → w.clients.get b = some d → d.reader ≠ .off →
      stats.get d.join.playerId = w.stats.get d.join.playerId := by
    intro b d hb hd hreader
    rcases hmoved with ⟨-, -, -, hstats⟩ | ⟨-, ⟨m, tx, ho⟩, -⟩
    · rw [hstats]
    · refine stats_others hs fun heq => hb ?_
      obtain ⟨m', tx', ho'⟩ := hi.seated hd hreader
      rw [heq] at ho'
      exact ((registry (world_serves h).unrecorded).once ho' ho).2.1
  have hat : brought a ++ (if a = a then (act.brings c).toList else []) =
      brought a ++ (act.brings c).toList := by rw [if_pos rfl]
  have helse : ∀ {b}, b ≠ a →
      brought b ++ (if a = b then (act.brings c).toList else []) = brought b := by
    intro b hb
    rw [if_neg hb.symm, List.append_nil]
  refine ⟨?_, ?_, ?_, ?_, ?_, ?_⟩
  · intro b hnone
    have hb : b ≠ a := by
      rintro rfl
      cases (HashMap.get_insert_self _ _ _).symm.trans hnone
    rw [helse hb]
    exact hi.nobody ((HashMap.get_insert_ne _ _ hb).symm.trans hnone)
  · intro b d hd hoff
    rcases HashMap.get_insert_cases hd with ⟨rfl, rfl⟩ | ⟨hb, hold⟩
    · rw [hat]
      rcases hmoved with ⟨-, hnil, hqueue, -⟩ | ⟨hreader, -⟩
      · exact ⟨hnil, hqueue⟩
      · exact absurd hoff hreader
    · rw [helse hb]
      exact hi.waiting hold hoff
  · intro b d hd hreader
    rcases HashMap.get_insert_cases hd with ⟨rfl, rfl⟩ | ⟨hb, hold⟩
    · rw [hat]
      rcases hmoved with ⟨hoff, -⟩ | ⟨-, -, haccount⟩
      · exact absurd hoff hreader
      · exact haccount
    · rw [helse hb]
      obtain ⟨st, taken, hst, haccount⟩ := hi.account hold hreader
      exact ⟨st, taken, (hothers hb hold hreader).trans hst, haccount⟩
  · intro b d hd hreader
    rcases HashMap.get_insert_cases hd with ⟨rfl, rfl⟩ | ⟨-, hold⟩
    · rw [hjoin]
      rcases hmoved with ⟨hoff, -⟩ | ⟨-, hseated, -⟩
      · exact absurd hoff hreader
      · exact hseated
    · exact hi.seated hold hreader
  · intro p st hst
    rcases hmoved with ⟨-, -, -, hstats⟩ | ⟨hreader, -⟩
    · exact owner_moved hi hc hs (hstats ▸ hst)
    · by_cases hp : p = c.join.playerId
      · exact ⟨a, c', HashMap.get_insert_self _ _ _, hjoin ▸ hp.symm, hreader⟩
      · exact owner_moved hi hc hs ((stats_others hs hp).symm.trans hst)
  · intro b msg hmsg
    rcases List.mem_append.mp hmsg with hmsg | hmsg
    · exact hi.heard hmsg
    · split at hmsg
      · next hab =>
        obtain ⟨packet, rfl, hm⟩ := brought_message (Option.mem_toList.mp hmsg)
        rw [← hab]
        exact parse_carried (world_serves h) ((voices h).carried (hact packet rfl)) hm
      · cases hmsg

/-- A step of the world, and what it brings. -/
inductive WorldMove (text : F32 → Number) (w : World) :
    World → Log → Option (SocketAddr × Arrival) → Prop
  | kept {w' : World} {log : Log} (hstats : w'.stats = w.stats)
      (hclients : ∀ {a c}, w'.clients.get a = some c → w.clients.get a = some c ∨
        w.clients.get a = none ∧ c.reader = .off ∧ c.queue = []) : WorldMove text w w' log none
  | client {a : SocketAddr} {act : ClientAction} {c c' : Client} {stats : Stats}
      {sent : List UdpPacket} (hc : w.clients.get a = some c)
      (hact : ∀ packet, act = .recv packet → (a, packet) ∈ w.toClients)
      (hs : ClientStep text c w.stats act c' stats sent) :
      WorldMove text w (w.moved a c' stats sent) [] ((act.brings c).map (a, ·))

theorem move_moves {a : SocketAddr} {act : ClientAction} {log : Log}
    (h : move text w a act = some (w', log))
    (hact : ∀ packet, act = .recv packet → (a, packet) ∈ w.toClients) :
    ∃ c, w.clients.get a = some c ∧ WorldMove text w w' log ((act.brings c).map (a, ·)) := by
  obtain ⟨c, hc, h⟩ := Option.bind_eq_some_iff.mp h
  obtain ⟨⟨c', stats, sent⟩, hs, h⟩ := Option.bind_eq_some_iff.mp h
  cases h
  exact ⟨c, hc, .client hc hact (stepClient_spec hs)⟩

theorem stepWorld_moves {act : WorldAction} {log : Log}
    (h : stepWorld text w act = some (w', log)) :
    WorldMove text w w' log (arrivalIn w act) := by
  cases act with
  | server a =>
    simp only [stepWorld] at h
    split at h
    · cases h
    · obtain ⟨sys, evs, -, rfl, -⟩ := serve_spec h
      exact .kept rfl .inl
  | arrive tid i =>
    obtain ⟨⟨a, packet⟩, -, h⟩ := Option.bind_eq_some_iff.mp h
    obtain ⟨sys, evs, -, rfl, -⟩ := serve_spec h
    exact .kept rfl .inl
  | stranger tid a packet =>
    simp only [stepWorld] at h
    split at h
    · cases h
    · obtain ⟨sys, evs, -, rfl, -⟩ := serve_spec h
      exact .kept rfl .inl
  | start a join trigger ticks =>
    simp only [stepWorld] at h
    split at h
    · cases h
    · next hnot =>
      cases h
      refine .kept rfl ?_
      intro b c hc
      rcases HashMap.get_insert_cases hc with ⟨rfl, rfl⟩ | ⟨-, hold⟩
      · exact .inr ⟨HashMap.get_eq_none (not_or.mp hnot).1, rfl, rfl⟩
      · exact .inl hold
  | deliver i =>
    obtain ⟨⟨a, packet⟩, hi, h⟩ := Option.bind_eq_some_iff.mp h
    obtain ⟨c, hc, hmoves⟩ := move_moves h (by
      rintro packet' heq
      cases heq
      exact List.mem_of_getElem? hi)
    have harrival : arrivalIn w (.deliver i) = (c.arrival packet).map (a, ·) := by
      simp [arrivalIn, hi, hc]
    rw [harrival]
    exact hmoves
  | client a act =>
    cases act with
    | recv packet => cases h
    | send _ | recvError _ | handOver | tryRecv | wake =>
      obtain ⟨c, -, hmoves⟩ := move_moves h fun _ => ClientAction.noConfusion
      exact hmoves

/-- Over any run, the statistics of every client are those of what has arrived. -/
theorem accounted {wlog : WorldLog} (h : (world text).recorded.Reach Machine.anyStep w wlog) :
    Accounted w (eventsOf wlog) (arrivalsAt wlog) := by
  refine Machine.Reach.log_induct (P := fun w wlog => Accounted w (eventsOf wlog) (arrivalsAt wlog))
    ?_ ?_ h
  · intro w hinit
    obtain ⟨url, rfl⟩ := hinit
    exact ⟨fun _ => rfl, nofun, nofun, nofun, nofun, nofun⟩
  · intro w wlog act w' log hreach hi _ hstep
    have harrivals := arrivalsAt_snoc wlog ⟨w, act, log, w'⟩
    rw [Machine.eventsOf_append, Machine.eventsOf_singleton, funext harrivals]
    have hfollows := world_follows (stepWorld_spec hstep)
    generalize harrival : arrivalIn w act = arrival
    have hmoves := stepWorld_moves hstep
    rw [harrival] at hmoves
    cases hmoves with
    | kept hstats hclients =>
      simpa using accounted_kept hi hstats hfollows hclients log
    | @client a act c c' stats sent hc hact hs =>
      have hmoved := accounted_moved hreach.unrecorded hi hc hact hs
      rw [List.append_nil]
      convert hmoved using 3 with b
      cases act.brings c with
      | none => simp
      | some x => by_cases hab : a = b <;> simp [hab]

end Runs

end Kotatsu.TestClient
