import Kotatsu.Mirror

/-
  Steps that are not the room's

  What an outsider or another room does leaves the part of the room `m` where it is, and
  shows the room nothing.
-/

namespace Kotatsu

/-- The room sees none of the events of the action. -/
def Unseen (m : String) (F : List SocketAddr) (a : Action) (evs : List Event) : Prop :=
  ∀ e ∈ evs, e.visible m F a = false

section Elsewhere
variable {m : String} {F : List SocketAddr} {S : Set ChanId} {tr : List Event} {s s' t : Sys}
  {a : Action} {evs : List Event}

theorem Mirrors.no_room (h : Mirrors m F S tr s t) {m' : String} (hm : m' ≠ m) :
    t.core.rooms.get m' = none := h.rooms.get_theirs fun _ _ => hm

theorem Mirrors.no_client (h : Mirrors m F S tr s t) {a : SocketAddr} (ha : a ∈ F) :
    t.clients.get a = none := h.clients.get_theirs fun _ _ hn => hn ha

/-- A channel of another room is not the room's. -/
theorem Mirrors.foreign (h : Mirrors m F S tr s t) {tx : ChanId}
    (he : ChannelElsewhere tr m tx) : tx ∉ S := by
  obtain ⟨m', hm, p, a, ho⟩ := he
  exact fun hS => hm ((h.owned ho).mp hS)

theorem Mirrors.no_ticket (h : Mirrors m F S tr s t) {token : String} {k : Ticket}
    (hk : s.core.tickets.get token = some k) (hm : k.matchId ≠ m) :
    t.core.tickets.get token = none := by
  refine h.tickets.get_theirs ?_
  intro k' hk'
  rw [hk] at hk'
  obtain rfl := Option.some.inj hk'
  exact hm

/-- Another room is written back. -/
theorem Mirrors.setRoom (h : Mirrors m F S tr s t) {m' : String} (hm : m' ≠ m) (room : MatchRoom) :
    HashMap.Part (fun m' _ => m' = m) (fun m' _ => m' ≠ m)
      (s.core.setRoom m' room).rooms t.core.rooms := h.rooms.insert_theirs (h.no_room hm) hm

/-- A channel that is not the room's is written. -/
theorem Mirrors.setChan (h : Mirrors m F S tr s t) {tx : ChanId} (htx : tx ∉ S) (chan : Channel) :
    HashMap.Part (fun tx _ => tx ∈ S) (fun tx _ => tx ∉ S) (s.chans.insert tx chan) t.chans :=
  h.chans.insert_theirs (h.chans.get_theirs fun _ _ => htx) htx

theorem no_registration {w : Emitter} (hw : w ≠ .join) (h : ∀ e ∈ evs, e.emitter = some w) :
    ∀ m p a tx, Event.registered m p a tx ∉ evs := by
  intro m p a tx he
  exact hw (Option.some.inj (h _ he)).symm

theorem unseen_nil : Unseen m F a [] := nofun

theorem unseen_sent {addr : SocketAddr} (ha : addr ∈ F) (msg : ServerReliable) :
    Unseen m F a [.sentReliable addr msg] := by
  intro e he
  obtain rfl := List.mem_singleton.mp he
  simp [Event.visible, ha]

theorem join_elsewhere (hsd : Sides m F s tr) (h : Mirrors m F S tr s t) {tid : Nat}
    (ht : t.joins.get tid = none) (hj : JoinStep s tid s' evs) :
    Beside m F tr s' t evs ∧ Unseen m F a evs := by
  have hother : ∀ {j}, s.joins.get tid = some j → j.elsewhere F S := fun hs =>
    h.joins.theirs_of hs ht
  have hF : ∀ {j}, s.joins.get tid = some j → j.addr ∈ F := fun hs => (hother hs).1
  have h' : Mirrors m F S (tr ++ evs) s t := by
    refine h.append fun he => ?_
    cases hj with
    | registered hs _ _ =>
      cases List.mem_singleton.mp he
      exact iff_of_false ((hother hs).2 _ rfl) ((hsd.registering hs).mp (hF hs))
    | errorSent _ hev => rcases hev with rfl | rfl <;> simp at he
    | _ => simp at he
  have hto : ∀ {j j'}, s.joins.get tid = some j → j'.addr = j.addr → j'.unregistered = none →
      HashMap.Part (fun _ j => j.within F S) (fun _ j => j.elsewhere F S)
        (s.joins.insert tid j') t.joins := by
    intro j j' hs haddr hj
    exact h.joins.insert_theirs ht (JoinTask.inside (haddr ▸ hF hs) hj)
  cases hj with
  | alreadyJoined hs _ | rollbackNone hs _ =>
    exact ⟨⟨S, { h' with joins := h'.joins.remove_theirs ht }⟩, unseen_nil⟩
  | okSent hs =>
    exact ⟨⟨S, { h' with joins := h'.joins.remove_theirs ht }⟩, unseen_sent (hF hs) _⟩
  | @errorSent addr code message rx evs hs he =>
    refine ⟨⟨S, { h' with chans := ?_, joins := h'.joins.remove_theirs ht }⟩, ?_⟩
    · cases rx with
      | none => exact h'.chans
      | some rx => exact h.setChan ((hother hs).2 rx rfl) _
    · rcases he with rfl | rfl
      · exact unseen_sent (hF hs) _
      · exact unseen_nil
  | checked hs _ | okFailed hs =>
    exact ⟨⟨S, { h' with joins := hto hs rfl rfl }⟩, unseen_nil⟩
  | @joinRefused addr m' p name e tx hs _ =>
    obtain ⟨ha, hforeign⟩ := hother hs
    have hm : m' ≠ m := (hsd.registering hs).mp ha
    refine ⟨⟨S, { h' with joins := h.joins.insert_theirs ht ⟨ha, hforeign⟩ }⟩, ?_⟩
    simp [Unseen, Event.visible, hm]
  | unknownToken hs _ =>
    refine ⟨⟨S, { h' with joins := hto hs rfl rfl }⟩, ?_⟩
    simp [Unseen, Event.visible]
  | @expired addr token now k hs hk _ =>
    have hno : t.core.tickets.get token = none := h.no_ticket hk ((hsd.consuming hs hk).mp (hF hs))
    refine ⟨⟨S,
      { h' with
        tickets := h'.tickets.remove_theirs hno
        joins := hto hs rfl rfl }⟩, ?_⟩
    simp [Unseen, Event.visible]
  | @consumed addr token now k tx hs hk _ hf =>
    have hno : t.core.tickets.get token = none := h.no_ticket hk ((hsd.consuming hs hk).mp (hF hs))
    -- the channel that the task makes is not the room's
    have h' := (h.resize hsd.registry hf (T := S \ {tx}) fun tx' hne => and_iff_left hne).mono
      [.ticketPresented token now (.ok (k.matchId, k.playerId, k.displayName))] (by simp)
    have htx : tx ∉ S \ {tx} := fun hmem => hmem.2 rfl
    have ha : addr ∈ F := hF hs
    refine ⟨⟨_,
      { h' with
        tickets := h'.tickets.remove_theirs hno
        chans := h'.setChan htx _
        joins := h'.joins.insert_theirs ht ⟨ha, ?_⟩ }⟩, ?_⟩
    · intro tx' heq
      cases heq
      exact htx
    · simp [Unseen, Event.visible]
  | @registered addr m' p name room tx now hs hr _ =>
    have hm : m' ≠ m := (hsd.registering hs).mp (hF hs)
    refine ⟨⟨S,
      { h' with
        rooms := h'.setRoom hm _
        joins := hto hs rfl rfl }⟩, ?_⟩
    simp [Unseen, Event.visible, hm]
  | @inserted addr m' p params tx hs =>
    refine ⟨⟨S,
      { h' with
        clients := h'.clients.insert_theirs (h.no_client (hF hs)) (hF hs)
        chans := ?_
        joins := hto hs rfl rfl }⟩, unseen_nil⟩
    cases hc : s.clients.get addr with
    | none => exact h'.chans
    | some c =>
      obtain ⟨hside, -, ho, -⟩ := hsd.session hc
      exact h.setChan (h.foreign ⟨_, hside.mp (hF hs), ho⟩) _
  | @rollbackTake addr c hs hc =>
    have hca : c.addr = addr := (hsd.session hc).2.1
    exact ⟨⟨S,
      { h' with
        clients := h'.clients.remove_theirs (h.no_client (hF hs))
        joins := hto hs hca rfl }⟩, unseen_nil⟩
  | @removed c room now hs hr =>
    obtain ⟨hside, ho⟩ := hsd.removing hs
    have hm : c.matchId ≠ m := hside.mp (hF hs)
    refine ⟨⟨S,
      { h' with
        rooms := h'.setRoom hm _
        chans := h.setChan (h.foreign ⟨_, hm, ho⟩) _
        joins := h'.joins.remove_theirs ht }⟩, ?_⟩
    simp [Unseen, Event.visible, hm]
  | @removedNoRoom c hs hr =>
    obtain ⟨hside, ho⟩ := hsd.removing hs
    exact ⟨⟨S,
      { h' with
        chans := h.setChan (h.foreign ⟨_, hside.mp (hF hs), ho⟩) _
        joins := h'.joins.remove_theirs ht }⟩, unseen_nil⟩

theorem param_elsewhere (hsd : Sides m F s tr) (h : Mirrors m F S tr s t) {tid : Nat}
    (ht : t.params.get tid = none) (hp : ParamStep s tid s' evs) :
    Beside m F tr s' t evs ∧ Unseen m F a evs := by
  have h' := h.mono evs (no_registration (by decide) (param_emits hp))
  have htheirs : ∀ {p}, s.params.get tid = some p → p.elsewhere m F :=
    fun hs => h.params.theirs_of hs ht
  cases hp with
  | notJoined hs _ => exact ⟨⟨S, { h' with params := h'.params.remove_theirs ht }⟩, unseen_nil⟩
  | lookedUp hs hc =>
    have hm : _ ≠ m := (hsd.session hc).1.mp (htheirs hs)
    exact ⟨⟨S, { h' with params := h'.params.insert_theirs ht hm }⟩, unseen_nil⟩
  | @refused m' p tx seq k d cid now e hs hf _ =>
    have hm : m' ≠ m := htheirs hs
    obtain ⟨a, hreg⟩ := hsd.entries.updating hs
    refine ⟨⟨S,
      { h' with
        params := h'.params.remove_theirs ht
        casts := h'.casts.insert_theirs (h.casts.get_none hf) ?_ }⟩, ?_⟩
    · intro tx' htx
      obtain rfl := List.mem_singleton.mp htx
      exact (channel_elsewhere hm hreg).mono _
    · simp [Unseen, Event.visible, hm]
  | @updated m' p tx seq k d cid now now' ms room player mu hs hf _ _ _ =>
    have hm : m' ≠ m := htheirs hs
    refine ⟨⟨S,
      { h' with
        rooms := h'.setRoom hm _
        params := h'.params.remove_theirs ht
        casts := h'.casts.insert_theirs (h.casts.get_none hf) hm }⟩, ?_⟩
    simp [Unseen, Event.visible, hm]

theorem cast_elsewhere (hsd : Sides m F s tr) (h : Mirrors m F S tr s t) {cid : Nat}
    (ht : t.casts.get cid = none) (hc : CastStep s cid s' evs) :
    Beside m F tr s' t evs ∧ Unseen m F a evs := by
  have h' := h.mono evs (no_registration (by decide) (cast_emits hc))
  have htheirs : ∀ {c}, s.casts.get cid = some c → c.elsewhere tr m :=
    fun hs => h.casts.theirs_of hs ht
  have hrest : ∀ {tx txs msg}, s.casts.get cid = some (.sending (tx :: txs) msg) →
      Cast.elsewhere (tr ++ evs) m (.sending txs msg) := by
    intro tx txs msg hs x hx
    exact (htheirs hs x (List.mem_cons_of_mem _ hx)).mono evs
  cases hc with
  | noRoom _ _ | done _ => exact ⟨⟨S, { h' with casts := h'.casts.remove_theirs ht }⟩, unseen_nil⟩
  | collected hs hr hperm =>
    refine ⟨⟨S, { h' with casts := h'.casts.insert_theirs ht ?_ }⟩, unseen_nil⟩
    intro tx htx
    exact ⟨_, htheirs hs, (hsd.recipient hr (hperm.mem_iff.mp htx)).mono []⟩
  | sent hs _ _ _ =>
    refine ⟨⟨S,
      { h' with
        chans := h.setChan (h.foreign (htheirs hs _ List.mem_cons_self)) _
        casts := h'.casts.insert_theirs ht (hrest hs) }⟩, ?_⟩
    simp [Unseen, Event.visible]
  | lost hs _ _ =>
    exact ⟨⟨S, { h' with casts := h'.casts.insert_theirs ht (hrest hs) }⟩, unseen_nil⟩

theorem relay_elsewhere (hsd : Sides m F s tr) (h : Mirrors m F S tr s t) {tid : Nat}
    (ht : t.relays.get tid = none) (hr : RelayStep s tid s' evs) :
    Beside m F tr s' t evs ∧ Unseen m F a evs := by
  have h' := h.mono evs fun m' p a tx he => by
    obtain ⟨b, out, heq⟩ := (relay_quiet hr).2 _ he
    cases heq
  have htheirs : ∀ {r}, s.relays.get tid = some r → r.elsewhere m F :=
    fun hs => h.relays.theirs_of hs ht
  cases hr with
  | notJoined _ _ | noRoom _ _ | done _ =>
    exact ⟨⟨S, { h' with relays := h'.relays.remove_theirs ht }⟩, unseen_nil⟩
  | lookedUp hs hc =>
    have hm : _ ≠ m := (hsd.session hc).1.mp (htheirs hs)
    exact ⟨⟨S, { h' with relays := h'.relays.insert_theirs ht hm }⟩, unseen_nil⟩
  | collected hs hr hperm =>
    refine ⟨⟨S, { h' with relays := h'.relays.insert_theirs ht ?_ }⟩, unseen_nil⟩
    intro a ha
    exact (hsd.relayed hr (hperm.mem_iff.mp ha)).mpr (htheirs hs)
  | @sent addr addrs out evs hs he =>
    have ha : ∀ a ∈ addr :: addrs, a ∈ F := htheirs hs
    refine ⟨⟨S, { h' with relays := h'.relays.insert_theirs ht ?_ }⟩, ?_⟩
    · intro a hrest
      exact ha a (List.mem_cons_of_mem _ hrest)
    · rcases he with rfl | rfl
      · simp [Unseen, Event.visible, ha addr List.mem_cons_self]
      · exact unseen_nil

/-- The outgoing task looks into the channel of an outsider. -/
theorem take_elsewhere (hsd : Sides m F s tr) (h : Mirrors m F S tr s t) {addr : SocketAddr}
    {rest : List SocketAddr} (hd : s.drain = some (.take (addr :: rest))) (ha : addr ∈ F)
    (hs : DrainStep s s' evs) : Beside m F tr s' t evs ∧ Unseen m F a evs := by
  have h' := h.quiet
  have hdrain : t.drain = some (.take (rest.filter (· ∉ F))) := by
    rw [h.drain, hd]
    simp [DrainTask.without, ha]
  cases hs with
  | locked hno _ | unlocked hno | sent hno _ =>
    rw [hd] at hno
    cases hno
  | next hd' =>
    rw [hd] at hd'
    cases hd'
    exact ⟨⟨S, { h' with drain := hdrain }⟩, unseen_nil⟩
  | @took addr' rest' c msg queue alive hd' hc hq =>
    rw [hd] at hd'
    cases hd'
    obtain ⟨hside, haddr, ho, -⟩ := hsd.session hc
    have hout : c.addr ∈ F := haddr ▸ ha
    refine ⟨⟨S,
      { h' with
        chans := h.setChan (h.foreign ⟨_, hside.mp ha, ho⟩) _
        drain := ?_ }⟩, unseen_nil⟩
    rw [hdrain]
    simp [DrainTask.without, ha, hout]

/-- The outgoing task sends what it has taken for an outsider. -/
theorem send_elsewhere (h : Mirrors m F S tr s t) {c : ClientSession} {msg : ServerReliable}
    {rest : List SocketAddr} (hd : s.drain = some (.send c msg rest)) (ha : c.addr ∈ F)
    (hs : DrainStep s s' evs) : Beside m F tr s' t evs ∧ Unseen m F a evs := by
  have hdrain : t.drain = some (.take (rest.filter (· ∉ F))) := by
    rw [h.drain, hd]
    simp [DrainTask.without, ha]
  cases hs with
  | locked hno _ | unlocked hno | next hno | took hno _ _ =>
    rw [hd] at hno
    cases hno
  | sent hd' he =>
    rw [hd] at hd'
    cases hd'
    have h' := h.mono evs (by rcases he with rfl | rfl <;> simp)
    refine ⟨⟨S, { h' with drain := hdrain }⟩, ?_⟩
    rcases he with rfl | rfl
    · exact unseen_sent ha _
    · exact unseen_nil

theorem request_elsewhere (hsd : Sides m F s tr) (h : Mirrors m F S tr s t) {m' : String}
    (ha : a.room = some m') (hm : m' ≠ m) (hc : ControlStep s a s' evs) :
    Beside m F tr s' t evs ∧ Unseen m F a evs := by
  have h' := h.mono evs (no_registration (by decide) (control_emits hc))
  have hseen : ∀ xs : List String, ∀ x ∈ t.seen, x ∈ xs ++ s.seen :=
    fun xs x hx => List.mem_append_right _ (h.seen x hx)
  cases hc with
  | @created uuid now _ =>
    obtain rfl : matchIdOf uuid = m' := Option.some.inj ha
    refine ⟨⟨S, { h' with rooms := h'.setRoom hm _, seen := hseen [_] }⟩, ?_⟩
    simp [Unseen, Event.visible, hm]
  | @issued req uuid token now room _ hfresh _ _ _ =>
    obtain rfl : req.matchId = m' := Option.some.inj ha
    have hno : t.core.tickets.get token = none := by
      cases hk : t.core.tickets.get token with
      | none => rfl
      | some k => exact absurd (hsd.stored (h.tickets.get_some hk).1) hfresh
    refine ⟨⟨S,
      { h' with
        rooms := h'.setRoom hm _
        tickets := h'.tickets.insert_theirs hno hm
        seen := hseen [_, _] }⟩, ?_⟩
    simp [Unseen, Event.visible, hm]
  | started hf _ _ =>
    obtain rfl := Option.some.inj ha
    refine ⟨⟨S,
      { h' with
        rooms := h'.setRoom hm _
        casts := h'.casts.insert_theirs (h.casts.get_none hf) hm }⟩, ?_⟩
    simp [Unseen, Event.visible, hm]
  | startedAgain _ _ =>
    obtain rfl := Option.some.inj ha
    refine ⟨⟨S, h'⟩, ?_⟩
    simp [Unseen, Event.visible, hm]
  | finishedFirst _ _ _ _ =>
    obtain rfl := Option.some.inj ha
    refine ⟨⟨S, { h' with rooms := h'.setRoom hm _ }⟩, ?_⟩
    simp [Unseen, Event.visible, hm]
  | finishedAgain _ _ _ _ =>
    obtain rfl := Option.some.inj ha
    refine ⟨⟨S, h'⟩, ?_⟩
    simp [Unseen, Event.visible, hm]
  | deleted _ =>
    obtain rfl := Option.some.inj ha
    refine ⟨⟨S,
      { h' with
        rooms := h'.rooms.remove_theirs (h.no_room hm)
        tickets := h'.tickets.filter_theirs (HashMap.get_retain _ _) ?_ }⟩, ?_⟩
    · intro token k hk
      simpa [hk] using Ne.symm hm
    · simp [Unseen, Event.visible, hm]
  | got _ =>
    obtain rfl := Option.some.inj ha
    refine ⟨⟨S, h'⟩, ?_⟩
    simp [Unseen, Event.visible, roomSummary, hm]
  | refused =>
    refine ⟨⟨S, h'⟩, ?_⟩
    simp [Unseen, Event.visible, ha, hm]
  | listed | ticked _ | cleaned _ | ignored | joinReceived _ | paramReceived _
  | datagramReceived _ => cases ha

/-- A packet from an outsider. -/
theorem recv_elsewhere (h : Mirrors m F S tr s t) {tid : Nat} {addr : SocketAddr} {packet : Packet}
    (ha : addr ∈ F) (hc : ControlStep s (.recv tid addr packet) s' evs) :
    Beside m F tr s' t evs ∧ Unseen m F (.recv tid addr packet) evs := by
  have h' := h.mono evs (no_registration (by decide) (control_emits hc))
  cases hc with
  | ignored => exact ⟨⟨S, h'⟩, unseen_nil⟩
  | refused => exact ⟨⟨S, h'⟩, by simp [Unseen, Event.visible, Action.room]⟩
  | joinReceived hf =>
    refine ⟨⟨S,
      { h' with
        joins := h'.joins.insert_theirs (h.joins.get_none hf) (JoinTask.inside ha rfl)
        seen := ?_ }⟩, unseen_nil⟩
    intro x hx
    exact List.mem_cons_of_mem _ (h.seen x hx)
  | paramReceived hf =>
    exact ⟨⟨S, { h' with params := h'.params.insert_theirs (h.params.get_none hf) ha }⟩, unseen_nil⟩
  | datagramReceived hf =>
    exact ⟨⟨S, { h' with relays := h'.relays.insert_theirs (h.relays.get_none hf) ha }⟩, unseen_nil⟩

end Elsewhere

end Kotatsu
