import Kotatsu.Registry
import Kotatsu.Lib.History

/-
  The life of a ticket

  What the ticket table holds is what the history says it should
  (`tickets_history`): the ticket that was last issued under the token, unless it
  was presented or its room was removed since. Tokens are fresh, so a token is
  issued at most once and not presented before; `ticket_lifecycle` is the
  resulting characterisation of the calls of `consume_ticket` that succeed.
-/

namespace Kotatsu

/-! ## The table is the history -/

/-- The ticket that an issue binds to its token. -/
def Event.issues (token : String) : Event → Option Ticket
  | .ticketIssued req resp now =>
    if resp.token = token then
      some
        { matchId := resp.matchId
          playerId := resp.playerId
          displayName := normalizeDisplayName req.displayName
          expiresAtUnix := now + tokenTtlSecs }
    else none
  | _ => none

/-- The event takes a ticket under this token out of the table. -/
def Event.revokes (token : String) : Event → Ticket → Bool
  | .ticketPresented token' _ _, _ => token' == token
  | .roomRemoved m, t => t.matchId == m
  | _, _ => false

/-- The ticket under a token, by the history. -/
def ticketOf (tr : List Event) (token : String) : Option Ticket :=
  History.cell (Event.issues token) (Event.revokes token) tr

theorem ticketOf_quiet {tr evs : List Event} {token : String}
    (h : ∀ e ∈ evs, e.issues token = none ∧ ∀ t, e.revokes token t = false) :
    ticketOf (tr ++ evs) token = ticketOf tr token := History.cell_append_quiet h

theorem ticketOf_issued (tr : List Event) (req : IssueJoinTicketRequest)
    (resp : IssueJoinTicketResponse) (now : Nat) (token : String) :
    ticketOf (tr ++ [.ticketIssued req resp now]) token =
      if token = resp.token then some
        { matchId := resp.matchId
          playerId := resp.playerId
          displayName := normalizeDisplayName req.displayName
          expiresAtUnix := now + tokenTtlSecs }
      else ticketOf tr token := by
  unfold ticketOf
  rw [History.cell_snoc]
  by_cases h : token = resp.token
  · simp [History.cellStep, Event.issues, h]
  · have h' : ¬ resp.token = token := fun he => h he.symm
    rw [if_neg h, History.cellStep_quiet]
    · simp [Event.issues, h']
    · intro t
      rfl

theorem ticketOf_presented (tr : List Event) (token' : String) (now : Nat)
    (r : Except String (String × String × String)) (token : String) :
    ticketOf (tr ++ [.ticketPresented token' now r]) token =
      if token = token' then none else ticketOf tr token := by
  unfold ticketOf
  rw [History.cell_snoc]
  by_cases h : token = token'
  · simp [History.cellStep, Event.issues, Event.revokes, h]
  · have h' : ¬ token' = token := fun he => h he.symm
    rw [if_neg h, History.cellStep_quiet]
    · rfl
    · intro t
      simp [Event.revokes, h']

theorem ticketOf_removed (tr : List Event) (ms : List String) (token : String) :
    ticketOf (tr ++ ms.map .roomRemoved) token =
      (ticketOf tr token).filter fun t => !ms.contains t.matchId := by
  unfold ticketOf
  rw [History.cell_append]
  generalize History.cell (Event.issues token) (Event.revokes token) tr = cur
  induction ms generalizing cur with
  | nil => cases cur <;> simp [Option.filter_some]
  | cons m ms ih =>
    rw [List.map_cons, List.foldl_cons, ih]
    cases cur with
    | none => rfl
    | some t =>
      by_cases hm : t.matchId = m <;>
        simp [History.cellStep, Event.issues, Event.revokes, Option.filter_some, hm]

/-- One step keeps the table in line with the history. -/
theorem tickets_step {s : Sys} {a : Action} {core : CoreState} {tr evs : List Event}
    (hi : ∀ token, s.core.tickets.get token = ticketOf tr token) (h : CoreStep s a core evs)
    (token : String) : core.tickets.get token = ticketOf (tr ++ evs) token := by
  -- events that do not concern tickets
  have hquiet : ∀ {evs : List Event}, (∀ e ∈ evs, e.issues token = none ∧
      ∀ t, e.revokes token t = false) →
      s.core.tickets.get token = ticketOf (tr ++ evs) token := by
    intro evs hq
    rw [ticketOf_quiet hq, hi]
  cases h with
  | quiet hq =>
    refine hquiet fun e he => ?_
    have := hq e he
    cases e <;> simp [Event.onCore, Event.issues, Event.revokes] at this ⊢
  | issued _ _ _ _ _ =>
    rw [ticketOf_issued, HashMap.get_insert, hi]
  | unknownToken _ hk =>
    rw [ticketOf_presented, ← hi]
    split
    · next ht => rw [ht, hk]
    · rfl
  | expired _ _ _ =>
    rw [ticketOf_presented, HashMap.get_remove, hi]
  | consumed _ _ _ =>
    rw [ticketOf_presented, HashMap.get_remove, hi]
  | @deleted m room _ =>
    show (s.core.tickets.retain _).get token = ticketOf (tr ++ [m].map .roomRemoved) token
    rw [ticketOf_removed, HashMap.get_retain, hi]
    congr 1
    funext t
    simp [bne, Bool.beq_eq_decide_eq]
  | @cleaned tid timeout now _ =>
    rw [ticketOf_removed, ← hi]
    ext t
    rw [deleteStale_tickets, Option.filter_eq_some_iff]
    simp
  | created _ | registered _ _ _ | removed _ _ | updated _ _ _ _ | started _ _
  | startedAgain _ _ | finishedFirst _ _ _ _ | finishedAgain _ _ _ _ =>
    exact hquiet (by simp [Event.issues, Event.revokes])

/-- The ticket table is what the history says. -/
theorem tickets_history {G : Sys → Action → Prop} {s : Sys} {tr : List Event}
    (h : server.Reach G s tr) : ∀ token, s.core.tickets.get token = ticketOf tr token := by
  refine Machine.Reach.induct
    (P := fun s tr => ∀ token, s.core.tickets.get token = ticketOf tr token) ?_ ?_ h
  · intro s hinit token
    obtain ⟨url, rfl⟩ := hinit
    rfl
  · intro s tr a s' evs _ ih _ hs
    exact tickets_step ih (step_core (step_spec hs))

/-! ## Tokens are fresh -/

/-- Every token that was presented, issued, or is about to be presented has been
seen. -/
structure TokensSeen (s : Sys) (tr : List Event) : Prop where
  checking : ∀ {tid addr token}, s.joins.get tid = some (.check addr token) → token ∈ s.seen
  consuming : ∀ {tid addr token}, s.joins.get tid = some (.consume addr token) → token ∈ s.seen
  presented : ∀ {token now r}, Event.ticketPresented token now r ∈ tr → token ∈ s.seen
  issued : ∀ {req resp now}, Event.ticketIssued req resp now ∈ tr → resp.token ∈ s.seen

/-- A presented token is that of the task that presents it, alone in its step. -/
theorem presented_by {s : Sys} {a : Action} {core : CoreState} {evs : List Event}
    (h : CoreStep s a core evs) {token : String} {now : Nat}
    {r : Except String (String × String × String)}
    (he : Event.ticketPresented token now r ∈ evs) :
    evs = [.ticketPresented token now r] ∧
    (∃ tid addr, s.joins.get tid = some (.consume addr token)) ∧
    (∀ v, r = .ok v ↔ ∃ t, s.core.tickets.get token = some t ∧ now ≤ t.expiresAtUnix ∧
      v = (t.matchId, t.playerId, t.displayName)) := by
  cases h with
  | quiet hq => exact absurd (hq _ he) (by simp [Event.onCore])
  | unknownToken ht hk =>
    obtain ⟨rfl, rfl, rfl⟩ : token = _ ∧ now = _ ∧ r = _ := by simpa using he
    exact ⟨rfl, ⟨_, _, ht⟩, by simp [hk]⟩
  | expired ht hk hx =>
    obtain ⟨rfl, rfl, rfl⟩ : token = _ ∧ now = _ ∧ r = _ := by simpa using he
    exact ⟨rfl, ⟨_, _, ht⟩, by simp [hk, Nat.not_le.mpr hx]⟩
  | consumed ht hk hx =>
    obtain ⟨rfl, rfl, rfl⟩ : token = _ ∧ now = _ ∧ r = _ := by simpa using he
    exact ⟨rfl, ⟨_, _, ht⟩, by simp [hk, hx, eq_comm]⟩
  | _ => simp at he

theorem issued_by {s s' : Sys} {a : Action} {evs : List Event} (h : Step s a s' evs)
    {req : IssueJoinTicketRequest} {resp : IssueJoinTicketResponse} {now : Nat}
    (he : Event.ticketIssued req resp now ∈ evs) :
    evs = [.ticketIssued req resp now] ∧ resp.token ∉ s.seen ∧ resp.token ∈ s'.seen := by
  have hc : ControlStep s a s' evs := step_emitted (w := .control) h he rfl
  cases hc with
  | issued _ ht _ _ _ =>
    obtain ⟨rfl, rfl, rfl⟩ : req = _ ∧ resp = _ ∧ now = _ := by simpa using he
    exact ⟨rfl, ht, by simp⟩
  | _ => simp at he

theorem tokensSeen_step {s s' : Sys} {tr : List Event} {a : Action} {evs : List Event}
    (hi : TokensSeen s tr) (h : Step s a s' evs) : TokensSeen s' (tr ++ evs) := by
  have hold : ∀ {token}, token ∈ s.seen → token ∈ s'.seen := seen_step h
  refine ⟨?_, ?_, ?_, ?_⟩
  · intro tid addr token ht
    cases task_from h ht with
    | kept ht => exact hold (hi.checking ht)
    | received hnew => exact hnew
  · intro tid addr token ht
    cases task_from h ht with
    | kept ht => exact hold (hi.consuming ht)
    | checked ht => exact hold (hi.checking ht)
  · intro token now r hm
    rcases List.mem_append.mp hm with hm | hm
    · exact hold (hi.presented hm)
    · obtain ⟨-, ⟨tid, addr, ht⟩, -⟩ := presented_by (step_core h) hm
      exact hold (hi.consuming ht)
  · intro req resp now hm
    rcases List.mem_append.mp hm with hm | hm
    · exact hold (hi.issued hm)
    · exact (issued_by h hm).2.2

theorem tokensSeen {G : Sys → Action → Prop} {s : Sys} {tr : List Event}
    (h : server.Reach G s tr) : TokensSeen s tr := by
  refine Machine.Reach.induct (P := TokensSeen) ?_ ?_ h
  · intro s hinit
    obtain ⟨url, rfl⟩ := hinit
    refine ⟨?_, ?_, ?_, ?_⟩ <;> intros <;> next h => cases h
  · intro s tr a s' evs _ hi _ hs
    exact tokensSeen_step hi (step_spec hs)

/-- Before an issue, its token was neither issued nor presented. -/
theorem fresh_before_issue {G : Sys → Action → Prop} {s : Sys} {tr pre post : List Event}
    {req : IssueJoinTicketRequest} {resp : IssueJoinTicketResponse} {now : Nat}
    (h : server.Reach G s tr) (he : tr = pre ++ .ticketIssued req resp now :: post) :
    (∀ req' resp' now', Event.ticketIssued req' resp' now' ∈ pre → resp'.token ≠ resp.token) ∧
    ∀ now' r, Event.ticketPresented resp.token now' r ∉ pre := by
  obtain ⟨s₀, a, s₁, hreach, -, hs⟩ := h.event_alone he
    fun s a s' evs hs hm => (issued_by (step_spec hs) hm).1
  obtain ⟨-, hfresh, -⟩ := issued_by (step_spec hs) (List.mem_singleton_self _)
  have hseen : TokensSeen s₀ pre := tokensSeen hreach
  refine ⟨?_, ?_⟩
  · intro req' resp' now' hm' heq
    exact hfresh (heq ▸ hseen.issued hm')
  · intro now' r hm'
    exact hfresh (hseen.presented hm')

/-! ## Stored tickets -/

/-- Every stored ticket refers to an existing room. -/
def TicketsHaveRooms (core : CoreState) : Prop :=
  ∀ token t, core.tickets.get token = some t → ∃ room, core.rooms.get t.matchId = some room

theorem ticketsHaveRooms_step {s : Sys} {a : Action} {core : CoreState} {evs : List Event}
    (hi : TicketsHaveRooms s.core) (h : CoreStep s a core evs) : TicketsHaveRooms core := by
  intro token t hk
  have hroom : ∀ {m room m'}, (∃ room, s.core.rooms.get m' = some room) →
      ∃ room', (s.core.setRoom m room).rooms.get m' = some room' :=
    fun h => HashMap.exists_get_insert h _ _
  cases h with
  | quiet _ | unknownToken _ _ | startedAgain _ _ | finishedAgain _ _ _ _ => exact hi token t hk
  | expired _ _ _ | consumed _ _ _ => exact hi token t (HashMap.get_remove_eq_some.mp hk).2
  | issued _ _ _ hr _ =>
    rcases HashMap.get_insert_cases hk with ⟨-, rfl⟩ | ⟨-, hk⟩
    · exact hroom ⟨_, hr⟩
    · exact hroom (hi token t hk)
  | created _ | registered _ _ _ | removed _ _ | updated _ _ _ _ | started _ _
  | finishedFirst _ _ _ _ => exact hroom (hi token t hk)
  | @deleted m _ _ =>
    obtain ⟨hk, hne⟩ := HashMap.get_retain_eq_some.mp hk
    obtain ⟨room, hr⟩ := hi token t hk
    exact ⟨room, (HashMap.get_remove_ne _ (by simpa using hne)).trans hr⟩
  | cleaned _ =>
    obtain ⟨hk, hne⟩ := deleteStale_tickets.mp hk
    obtain ⟨room, hr⟩ := hi token t hk
    exact ⟨room, deleteStale_rooms.mpr ⟨hr, hne⟩⟩

theorem ticketsHaveRooms {G : Sys → Action → Prop} {s : Sys} {tr : List Event}
    (h : server.Reach G s tr) : TicketsHaveRooms s.core := by
  refine Machine.Reach.induct (P := fun s _ => TicketsHaveRooms s.core) ?_ ?_ h
  · intro s hinit token t hk
    obtain ⟨url, rfl⟩ := hinit
    cases hk
  · intro s tr a s' evs _ hi _ hs
    exact ticketsHaveRooms_step hi (step_core (step_spec hs))

/-! ## The calls that succeed -/

/-- By the history `tr`, a call of `consume_ticket` with this token at `now` is
owed `v`: the token was issued for it, never presented, its room not removed since,
and it has not expired. -/
def Redeemable (tr : List Event) (token : String) (now : Nat) (v : String × String × String) :
    Prop :=
  ∃ a b req resp issuedAt, tr = a ++ .ticketIssued req resp issuedAt :: b ∧
    resp.token = token ∧
    v = (resp.matchId, resp.playerId, normalizeDisplayName req.displayName) ∧
    (∀ now' r, Event.ticketPresented token now' r ∉ tr) ∧
    Event.roomRemoved resp.matchId ∉ b ∧ now ≤ issuedAt + tokenTtlSecs

/-- What an event that issues a ticket is. -/
theorem issues_eq_some {token : String} {e : Event} {t : Ticket} (h : e.issues token = some t) :
    ∃ req resp now, e = .ticketIssued req resp now ∧ resp.token = token ∧
      t = { matchId := resp.matchId
            playerId := resp.playerId
            displayName := normalizeDisplayName req.displayName
            expiresAtUnix := now + tokenTtlSecs } := by
  cases e with
  | ticketIssued req resp now =>
    simp only [Event.issues] at h
    split at h
    · next ht => exact ⟨req, resp, now, rfl, ht, (Option.some.inj h).symm⟩
    · cases h
  | _ => cases h

/-- The stored ticket is the one that the history owes. -/
theorem redeemable_iff {G : Sys → Action → Prop} {s : Sys} {tr : List Event}
    (h : server.Reach G s tr) (token : String) (now : Nat) (v : String × String × String) :
    Redeemable tr token now v ↔ ∃ t, s.core.tickets.get token = some t ∧
      now ≤ t.expiresAtUnix ∧ v = (t.matchId, t.playerId, t.displayName) := by
  constructor
  · intro hex
    obtain ⟨a, b, req, resp, issuedAt, rfl, rfl, rfl, hpres, hroom, hnow⟩ := hex
    refine ⟨⟨resp.matchId, resp.playerId, normalizeDisplayName req.displayName,
      issuedAt + tokenTtlSecs⟩, ?_, hnow, rfl⟩
    rw [tickets_history h]
    refine History.cell_eq_some_iff.mpr ⟨a, _, b, rfl, by simp [Event.issues], ?_⟩
    intro x hx
    cases x with
    | ticketIssued req' resp' now' =>
      -- the token is issued once
      obtain ⟨b₁, b₂, rfl⟩ := List.append_of_mem hx
      have hsplit : a ++ .ticketIssued req resp issuedAt ::
            (b₁ ++ .ticketIssued req' resp' now' :: b₂) =
          (a ++ .ticketIssued req resp issuedAt :: b₁) ++ .ticketIssued req' resp' now' :: b₂ := by
        simp
      have hfresh := (fresh_before_issue h hsplit).1 req resp issuedAt (by simp)
      exact ⟨by simp [Event.issues, Ne.symm hfresh], rfl⟩
    | ticketPresented token' now' r =>
      refine ⟨rfl, ?_⟩
      have hne : token' ≠ resp.token := by
        intro heq
        subst heq
        exact hpres now' r (by simp [hx])
      simpa [Event.revokes] using hne
    | roomRemoved m =>
      refine ⟨rfl, ?_⟩
      have hne : resp.matchId ≠ m := by
        intro heq
        subst heq
        exact hroom hx
      simpa [Event.revokes] using hne
    | _ => exact ⟨rfl, rfl⟩
  · intro hex
    obtain ⟨t, hk, hnow, rfl⟩ := hex
    rw [tickets_history h] at hk
    obtain ⟨a, e, b, rfl, he, hb⟩ := History.cell_eq_some_iff.mp hk
    obtain ⟨req, resp, issuedAt, rfl, rfl, rfl⟩ := issues_eq_some he
    refine ⟨a, b, req, resp, issuedAt, rfl, rfl, rfl, ?_, ?_, hnow⟩
    · intro now' r hm
      rcases List.mem_append.mp hm with hm | hm
      · exact (fresh_before_issue h rfl).2 now' r hm
      · rcases List.mem_cons.mp hm with hm | hm
        · cases hm
        · have := (hb _ hm).2
          simp [Event.revokes] at this
    · intro hm
      have := (hb _ hm).2
      simp [Event.revokes] at this

/-- A call of `consume_ticket` gets what the history before it owes. -/
theorem presented_iff {G : Sys → Action → Prop} {s : Sys} {tr pre post : List Event}
    {token : String} {now : Nat} {r : Except String (String × String × String)}
    (h : server.Reach G s tr) (he : tr = pre ++ .ticketPresented token now r :: post)
    (v : String × String × String) : r = .ok v ↔ Redeemable pre token now v := by
  obtain ⟨s₀, a, s₁, hreach, -, hs⟩ := h.event_alone he
    fun s a s' evs hs hm => (presented_by (step_core (step_spec hs)) hm).1
  obtain ⟨-, -, hv⟩ := presented_by (step_core (step_spec hs)) (List.mem_singleton_self _)
  rw [hv, redeemable_iff hreach]

/-- No call with a token succeeds after another call was made with it. -/
theorem presented_once {G : Sys → Action → Prop} {s : Sys} {tr pre post : List Event}
    {token : String} {now : Nat} {r : Except String (String × String × String)}
    (h : server.Reach G s tr) (he : tr = pre ++ .ticketPresented token now r :: post)
    (now' : Nat) (v : String × String × String) :
    Event.ticketPresented token now' (.ok v) ∉ post := by
  intro hm
  obtain ⟨b₁, b₂, rfl⟩ := List.append_of_mem hm
  have hsplit : tr = (pre ++ .ticketPresented token now r :: b₁) ++
      .ticketPresented token now' (.ok v) :: b₂ := by
    rw [he]
    simp
  obtain ⟨a, b, req, resp, issuedAt, -, -, -, hpres, -⟩ := (presented_iff h hsplit v).mp rfl
  exact hpres now r (by simp)

/-- The life of a ticket, over any run: a call of `consume_ticket` succeeds, and
with these ids and this name, exactly if the history before it owes them; a token
authenticates at most one join; and every stored ticket refers to an existing
room. -/
theorem ticket_lifecycle {s : Sys} {tr : List Event} (h : server.Reach Machine.anyStep s tr) :
    (∀ pre token now r post, tr = pre ++ .ticketPresented token now r :: post →
      ∀ v, r = .ok v ↔ Redeemable pre token now v) ∧
    (∀ pre token now v post, tr = pre ++ .ticketPresented token now (.ok v) :: post →
      ∀ now' v', Event.ticketPresented token now' (.ok v') ∉ post) ∧
    TicketsHaveRooms s.core :=
  ⟨fun _ _ _ _ _ he => presented_iff h he, fun _ _ _ _ _ he => presented_once h he,
    ticketsHaveRooms h⟩

/-- A duplicated join packet: the ticket is redeemed by the first handler only. -/
theorem ticket_lifecycle_duplicate : ∃ s tr, server.Reach Machine.anyStep s tr ∧
    TicketsHaveRooms s.core ∧ ∃ pre v post, tr = pre ++ .ticketPresented "t" 3601 (.ok v) :: post ∧
      Redeemable pre "t" 3601 v ∧ ∀ v', Event.ticketPresented "t" 0 (.ok v') ∉ post := by
  obtain ⟨s, tr, h, hp⟩ := reach_of_actions Machine.anyStep
    [.createRoom "r" 1, .issueJoinTicket ⟨"m_r", "x"⟩ "1" "t" 1,
      .recv 1 ⟨1, 1⟩ (.reliable (.join "t")), .recv 2 ⟨1, 1⟩ (.reliable (.join "t")),
      .join 1 {}, .join 2 {}, .join 1 { nowUnix := 3601 }, .join 2 {}]
    (fun _ tr => tr.any fun | .ticketPresented "t" 3601 (.ok _) => true | _ => false) (by decide)
  obtain ⟨e, he, hm⟩ := List.any_eq_true.mp hp
  split at hm
  · next v =>
    obtain ⟨pre, post, hsplit⟩ := List.append_of_mem he
    obtain ⟨hiff, honce, hrooms⟩ := ticket_lifecycle h
    exact ⟨s, tr, h, hrooms, pre, v, post, hsplit, (hiff _ _ _ _ _ hsplit v).mp rfl,
      fun v' => honce _ _ _ _ _ hsplit 0 v'⟩
  · cases hm

end Kotatsu
