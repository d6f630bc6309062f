import Kotatsu.Messages

/-
  After a room is removed

  A removal takes no lock but that of the rooms, and stops no task. So later requests,
  joins and changes for the room are only refused (`Event.NotFound`), no list has it, and
  no ticket is for it; but a task that has left the room's section behind goes on. What is
  still sent of the room is what such a task had left to do (`Remnant`): the `JoinOk` of a
  player that has registered, an announcement that is in a channel or has its recipients,
  and a datagram whose recipients are collected.
-/

namespace Kotatsu

open Machine (eventsOf)

/-! ## Announcements -/

/-- The message is announced to the room. -/
inductive ServerReliable.Announces (tr : List Event) (m : String) : ServerReliable → Prop
  | started {t ms : Nat} {players : List PlayerMatchState} :
      Announces tr m (.matchStarted m t players ms)
  | applied {p : String} {seq next ms : Nat} {params : PlayerParams} {a : SocketAddr} {tx : ChanId}
      (ho : Event.registered m p a tx ∈ tr) :
      Announces tr m (.paramApplied p seq params next ms)

theorem ServerReliable.Announces.mono {tr tr' : List Event} {m : String} {msg : ServerReliable}
    (h : msg.Announces tr m) (hsub : tr ⊆ tr') : msg.Announces tr' m := by
  cases h with
  | started => exact .started
  | applied ho => exact .applied (hsub ho)

/-- A message is announced to one room only. -/
theorem announces_unique {s : Sys} {tr : List Event} (hreg : Registry s tr) {m m' : String}
    {msg : ServerReliable} (h : msg.Announces tr m) (h' : msg.Announces tr m') : m = m' := by
  cases h with
  | started =>
    cases h'
    rfl
  | applied ho =>
    cases h' with
    | applied ho' => exact (hreg.once ho ho').1

/-- A broadcast collects the recipients of an announcement in its room. -/
theorem collects_announced {G : Sys → Action → Prop} {s : Sys} {tr : List Event}
    (h : server.Reach G s tr) : ∀ {cid m msg}, s.casts.get cid = some (.collect m msg) →
      msg.Announces tr m := by
  refine Machine.Reach.induct (P := fun s tr => ∀ {cid m msg},
    s.casts.get cid = some (.collect m msg) → msg.Announces tr m) ?_ ?_ h
  · intro s hinit cid m msg hc
    obtain ⟨url, rfl⟩ := hinit
    cases hc
  · intro s tr a s' evs hreach ih _ hs cid m msg hc'
    have hstep : Step s a s' evs := step_spec hs
    have hold : s.casts.get cid = some (.collect m msg) → msg.Announces (tr ++ evs) m :=
      fun hc => (ih hc).mono (List.subset_append_left _ _)
    cases casts_step hstep with
    | quiet heq _ => exact hold (heq ▸ hc')
    | refused _ heq _ =>
      rw [heq] at hc'
      rcases HashMap.get_insert_cases hc' with ⟨-, hnew⟩ | ⟨-, hc⟩
      · cases hnew
      · exact hold hc
    | updated _ heq =>
      rw [heq] at hc'
      rcases HashMap.get_insert_cases hc' with ⟨-, hnew⟩ | ⟨-, hc⟩
      · obtain ⟨⟨_, _, tx, seq, -, ht⟩, -, -⟩ :=
          updated_elsewhere hstep (List.mem_singleton_self _)
        obtain ⟨b, ho⟩ := (registrants hreach).updating ht
        cases hnew
        exact .applied (List.mem_append_left _ ho)
      · exact hold hc
    | started _ _ _ heq =>
      rw [heq] at hc'
      rcases HashMap.get_insert_cases hc' with ⟨-, hnew⟩ | ⟨-, hc⟩
      · cases hnew
        exact .started
      · exact hold hc
    | cast hcast =>
      cases hcast with
      | noRoom _ _ | done _ => exact hold (HashMap.get_remove_eq_some.mp hc').2
      | collected _ _ _ | sent _ _ _ _ | lost _ _ _ =>
        rcases HashMap.get_insert_cases hc' with ⟨-, hnew⟩ | ⟨-, hc⟩
        · cases hnew
        · exact hold hc

/-! ## What the tasks had left to do -/

/-- In `s`, which comes after `y`, the room is gone, and what is under way for it was under
way in `y`, past the section that needs the room. -/
structure Leaving (m : String) (tr : List Event) (y s : Sys) : Prop where
  seen : m ∈ s.seen
  gone : s.core.rooms.get m = none
  inserting : ∀ {tid b p params tx}, s.joins.get tid = some (.insert b m p params tx) →
    y.joins.get tid = some (.insert b m p params tx)
  accepting : ∀ {tid b p params}, s.joins.get tid = some (.sendOk b m p params) →
    y.joins.get tid = some (.sendOk b m p params) ∨
      ∃ tx, y.joins.get tid = some (.insert b m p params tx)
  announcing : ∀ {cid txs msg}, s.casts.get cid = some (.sending txs msg) →
    msg.Announces tr m → ∃ txs', y.casts.get cid = some (.sending txs' msg) ∧ txs ⊆ txs'
  relaying : ∀ {tid addrs out a tx}, s.relays.get tid = some (.sending addrs out) →
    Event.registered m out.playerId a tx ∈ tr →
    ∃ addrs', y.relays.get tid = some (.sending addrs' out) ∧ addrs ⊆ addrs'

section Leaving
variable {m : String} {y s s' : Sys} {log log' : Log} {a : Action} {evs : List Event}

theorem relayOut_playerId (p : String) (ms : Nat) (msg : ClientDatagram) :
    (relayOut p ms msg).playerId = p := by cases msg <;> rfl

theorem relayAddrs_gone {core : CoreState} (h : core.rooms.get m = none) (p : String)
    (out : ServerDatagram) : relayAddrs core m p out = none := by
  cases out <;> simp [relayAddrs, datagramAddrs, datagramAddrsToAll, h]

theorem announcing_since (hreach : server.recorded.Reach Machine.anyStep s log) {z : Sys}
    (hlast : server.recorded.Reach Machine.anyStep z log') (hsub : eventsOf log ⊆ eventsOf log')
    (hi : Leaving m (eventsOf log') y s) (h : Step s a s' evs) {cid : Nat} {txs : List ChanId}
    {msg : ServerReliable} (hc' : s'.casts.get cid = some (.sending txs msg))
    (hm : msg.Announces (eventsOf log') m) :
    ∃ txs', y.casts.get cid = some (.sending txs' msg) ∧ txs ⊆ txs' := by
  cases casts_step h with
  | quiet heq _ => exact hi.announcing (heq ▸ hc') hm
  | refused _ heq _ =>
    rw [heq] at hc'
    rcases HashMap.get_insert_cases hc' with ⟨-, hnew⟩ | ⟨-, hc⟩
    · -- a refusal is no announcement
      cases hnew
      cases hm
    · exact hi.announcing hc hm
  | updated _ heq | started _ _ _ heq =>
    rw [heq] at hc'
    rcases HashMap.get_insert_cases hc' with ⟨-, hnew⟩ | ⟨-, hc⟩
    · cases hnew
    · exact hi.announcing hc hm
  | cast hcast =>
    cases hcast with
    | noRoom _ _ | done _ => exact hi.announcing (HashMap.get_remove_eq_some.mp hc').2 hm
    | collected ht hr _ =>
      rcases HashMap.get_insert_cases hc' with ⟨-, hnew⟩ | ⟨-, hc⟩
      · -- recipients are collected in rooms that are there
        cases hnew
        have hroom := (collects_announced hreach.unrecorded ht).mono hsub
        obtain rfl := announces_unique (registry hlast.unrecorded) hm hroom
        rw [hi.gone] at hr
        cases hr
      · exact hi.announcing hc hm
    | sent ht _ _ _ | lost ht _ _ =>
      rcases HashMap.get_insert_cases hc' with ⟨rfl, hnew⟩ | ⟨-, hc⟩
      · cases hnew
        obtain ⟨txs', hy, hsub'⟩ := hi.announcing ht hm
        exact ⟨txs', hy, fun _ htx => hsub' (List.mem_cons_of_mem _ htx)⟩
      · exact hi.announcing hc hm

theorem relaying_since (hreach : server.recorded.Reach Machine.anyStep s log) {z : Sys}
    (hlast : server.recorded.Reach Machine.anyStep z log') (hsub : eventsOf log ⊆ eventsOf log')
    (hi : Leaving m (eventsOf log') y s) (h : Step s a s' evs) {tid : Nat}
    {addrs : List SocketAddr} {out : ServerDatagram} {b : SocketAddr} {tx : ChanId}
    (ht' : s'.relays.get tid = some (.sending addrs out))
    (ho : Event.registered m out.playerId b tx ∈ eventsOf log') :
    ∃ addrs', y.relays.get tid = some (.sending addrs' out) ∧ addrs ⊆ addrs' := by
  cases relay_from h ht' with
  | kept ht => exact hi.relaying ht ho
  | collected _ ht hr _ =>
    -- the sender is a player of the room, which is there
    obtain ⟨b', tx', msg, ms, ho', -, rfl⟩ := (Kotatsu.relaying hreach).collecting ht
    rw [relayOut_playerId] at ho
    obtain ⟨rfl, -, -⟩ := (registry hlast.unrecorded).once ho (hsub ho')
    rw [relayAddrs_gone hi.gone] at hr
    cases hr
  | sent ht =>
    obtain ⟨addrs', hy, hsub'⟩ := hi.relaying ht ho
    exact ⟨addrs', hy, fun _ hb => hsub' (List.mem_cons_of_mem _ hb)⟩

theorem leaving_step (hreach : server.recorded.Reach Machine.anyStep s log) {z : Sys}
    (hlast : server.recorded.Reach Machine.anyStep z log') (hsub : eventsOf log ⊆ eventsOf log')
    (hi : Leaving m (eventsOf log') y s) (h : Step s a s' evs) :
    Leaving m (eventsOf log') y s' := by
  have hgone : s'.core.rooms.get m = none := by
    refine Option.eq_none_iff_forall_ne_some.mpr fun room hr' => ?_
    obtain ⟨room, hr⟩ := room_before h hi.seen hr'
    rw [hi.gone] at hr
    cases hr
  refine ⟨seen_step h hi.seen, hgone, ?_, ?_, ?_, ?_⟩
  · intro tid b p params tx ht'
    cases task_from h ht' with
    | kept ht => exact hi.inserting ht
    | registered he =>
      -- a registration needs the room
      have hlink := link_registered (link_step (rooms_seen hreach.unrecorded) (step_core h)) he
      obtain ⟨seat, hseat, -⟩ := link_eq_some.mp hlink
      rw [CoreState.seat, hgone] at hseat
      cases hseat
  · intro tid b p params ht'
    cases task_from h ht' with
    | kept ht => exact hi.accepting ht
    | inserted ht => exact .inr ⟨_, hi.inserting ht⟩
  · intro cid txs msg hc' hm
    exact announcing_since hreach hlast hsub hi h hc' hm
  · intro tid addrs out b tx ht' ho
    exact relaying_since hreach hlast hsub hi h ht' ho

end Leaving

/-- The event, if it is of the room, is what a task of `y` had left to do, or was in a
channel by then. -/
structure Remnant (m : String) (tr pre : List Event) (y : Sys) (e : Event) : Prop where
  joinOk : ∀ b p params ms, e = .sentReliable b (.joinOk m p params ms) →
    ∃ tid, y.joins.get tid = some (.sendOk b m p params) ∨
      ∃ tx, y.joins.get tid = some (.insert b m p params tx)
  announced : ∀ b msg, e = .sentReliable b msg → msg.Announces tr m →
    (∃ tx, Event.enqueued tx msg ∈ pre) ∨ ∃ cid txs, y.casts.get cid = some (.sending txs msg)
  enqueued : ∀ tx msg, e = .enqueued tx msg → msg.Announces tr m →
    ∃ cid txs, y.casts.get cid = some (.sending txs msg) ∧ tx ∈ txs
  relayed : ∀ b out a tx, e = .sentDatagram b out → Event.registered m out.playerId a tx ∈ tr →
    ∃ tid addrs, y.relays.get tid = some (.sending addrs out) ∧ b ∈ addrs

section Removed
variable {s : Sys} {pre post : Log} {x : Moment Sys Action Event} {m : String}

/-- What the ledger says of the room once it has been removed. -/
theorem removed_gone_since (h : server.recorded.Reach Machine.anyStep s (pre ++ x :: post))
    (hm : Event.roomRemoved m ∈ x.events) :
    (∀ e ∈ eventsOf post, e.Concerns m → e.NotFound m) ∧ m ∈ s.seen ∧
      s.core.rooms.get m = none ∧ ∀ token t, s.core.tickets.get token = some t → t.matchId ≠ m := by
  obtain ⟨hlaw, hk⟩ := server_refines.reach h.unrecorded
  obtain ⟨before, after, hx⟩ := List.append_of_mem hm
  have hsplit : eventsOf (pre ++ x :: post) =
      (eventsOf pre ++ before) ++ .roomRemoved m :: (after ++ eventsOf post) := by
    rw [List.append_cons, Machine.eventsOf_append, Machine.eventsOf_append,
      Machine.eventsOf_singleton, hx]
    simp
  rw [hsplit] at hlaw hk
  obtain ⟨hrefused, hgone⟩ := removal_final hlaw
  refine ⟨fun e he => hrefused e (List.mem_append_right _ he), hk.opened m hgone.opened,
    (hk.core.rooms.none_iff m).mpr hgone.room, ?_⟩
  intro token t ht
  rw [hk.core.tickets] at ht
  exact hgone.tickets token t ht

/-- Every later moment starts where the tasks of the removal have gone on. -/
theorem leaving_since (h : server.recorded.Reach Machine.anyStep s (pre ++ x :: post))
    (hm : Event.roomRemoved m ∈ x.events) {mid rest : Log} {z : Moment Sys Action Event}
    (hpost : post = mid ++ z :: rest) :
    Leaving m (eventsOf (pre ++ x :: post)) x.after z.before := by
  have hsplit : pre ++ x :: post = (pre ++ x :: mid) ++ z :: rest := by simp [hpost]
  have hz : server.recorded.Reach Machine.anyStep z.before (pre ++ x :: mid) :=
    (Machine.moment_at (hsplit ▸ h)).1
  refine Machine.kept_since (P := Leaving m (eventsOf (pre ++ x :: post)) x.after) hz ?_ ?_
  · -- the first state after the removal
    obtain ⟨hbefore, -, hs⟩ := Machine.moment_at h
    have hx : server.recorded.Reach Machine.anyStep x.after (pre ++ x :: []) :=
      hbefore.step trivial (Machine.recorded_step.mpr ⟨x.events, hs, rfl⟩)
    obtain ⟨-, hseen, hgone, -⟩ := removed_gone_since hx hm
    exact ⟨hseen, hgone, id, .inl, fun hc _ => ⟨_, hc, fun _ => id⟩,
      fun ht _ => ⟨_, ht, fun _ => id⟩⟩
  · intro mid' w rest' hmid hreach hs hi
    refine leaving_step hreach h ?_ hi (step_spec hs)
    have hlog : pre ++ x :: post = (pre ++ x :: mid') ++ (w :: rest' ++ z :: rest) := by
      simp [hpost, hmid]
    rw [hlog, Machine.eventsOf_append (pre ++ x :: mid')]
    exact List.subset_append_left _ _

/-- An announcement that is put into a channel had its recipients. -/
theorem enqueued_since (h : server.recorded.Reach Machine.anyStep s (pre ++ x :: post))
    (hm : Event.roomRemoved m ∈ x.events) {tx : ChanId} {msg : ServerReliable}
    (he : Event.enqueued tx msg ∈ eventsOf post)
    (hmsg : msg.Announces (eventsOf (pre ++ x :: post)) m) :
    ∃ cid txs, x.after.casts.get cid = some (.sending txs msg) ∧ tx ∈ txs := by
  obtain ⟨z, hz, he⟩ := Machine.mem_eventsOf.mp he
  obtain ⟨mid, rest, hpost⟩ := List.append_of_mem hz
  have hsplit : pre ++ x :: post = (pre ++ x :: mid) ++ z :: rest := by simp [hpost]
  obtain ⟨-, -, hs⟩ := Machine.moment_at (hsplit ▸ h)
  obtain ⟨cid, txs, hc⟩ := enqueued_by (step_spec hs) he
  obtain ⟨txs', hy, hsub⟩ := (leaving_since h hm hpost).announcing hc hmsg
  exact ⟨cid, txs', hy, hsub List.mem_cons_self⟩

/-- No `JoinOk` is put into a channel. -/
theorem enqueued_not_joinOk {log : Log} (h : server.recorded.Reach Machine.anyStep s log)
    {tx : ChanId} {m' p : String} {params : PlayerParams} {ms : Nat} :
    Event.enqueued tx (.joinOk m' p params ms) ∉ eventsOf log := by
  intro he
  cases (mailing h).enqueued _ _ he with
  | news hnews => cases hnews

theorem remnant_since (h : server.recorded.Reach Machine.anyStep s (pre ++ x :: post))
    (hm : Event.roomRemoved m ∈ x.events) {e : Event} (he : e ∈ eventsOf post) :
    Remnant m (eventsOf (pre ++ x :: post)) (eventsOf (pre ++ [x])) x.after e := by
  have hwhole : e ∈ eventsOf post := he
  obtain ⟨z, hz, he⟩ := Machine.mem_eventsOf.mp he
  obtain ⟨mid, rest, hpost⟩ := List.append_of_mem hz
  have hsplit : pre ++ x :: post = (pre ++ x :: mid) ++ z :: rest := by simp [hpost]
  obtain ⟨hreach, -, hs⟩ := Machine.moment_at (hsplit ▸ h)
  have hi := leaving_since h hm hpost
  refine ⟨?_, ?_, ?_, ?_⟩
  · intro b p params ms heq
    subst heq
    rcases sends_from (sends_of_sent hs he) with
      ⟨tid, _, _, _, _, ht, hmsg⟩ | ⟨_, _, _, _, -, hmsg⟩ | ⟨c, addrs, hd, -⟩
    · cases hmsg
      exact ⟨tid, hi.accepting ht⟩
    · cases hmsg
    · exact absurd (hand_enqueued hreach.unrecorded hd) (enqueued_not_joinOk hreach)
  · intro b msg heq hmsg
    subst heq
    rcases sends_from (sends_of_sent hs he) with
      ⟨_, _, _, _, _, -, rfl⟩ | ⟨_, _, _, _, -, rfl⟩ | ⟨c, addrs, hd, -⟩
    · cases hmsg
    · cases hmsg
    · have hput := hand_enqueued hreach.unrecorded hd
      rw [List.append_cons, Machine.eventsOf_append] at hput
      rcases List.mem_append.mp hput with hput | hput
      · exact .inl ⟨_, hput⟩
      · -- it was put there after the removal, by a broadcast of that moment
        have hpart : Event.enqueued c.rx msg ∈ eventsOf post := by
          rw [hpost, Machine.eventsOf_append]
          exact List.mem_append_left _ hput
        obtain ⟨cid, txs, hy, -⟩ := enqueued_since h hm hpart hmsg
        exact .inr ⟨cid, txs, hy⟩
  · intro tx msg heq hmsg
    exact enqueued_since h hm (heq ▸ hwhole) hmsg
  · intro b out a tx heq ho
    subst heq
    obtain ⟨tid, ch, -, hrelay⟩ := step_emitted (w := .relay) (step_spec hs) he rfl
    obtain ⟨addrs, ht⟩ := datagram_sent hrelay he
    obtain ⟨addrs', hy, hsub⟩ := hi.relaying ht ho
    exact ⟨tid, addrs', hy, hsub List.mem_cons_self⟩

/-- Once a room has been removed, later answers that are about it only say that it is not
there, none lists it and no ticket is for it; and what is still sent of it is what the
tasks of that moment had left to do. -/
theorem removed_for_good (h : server.recorded.Reach Machine.anyStep s (pre ++ x :: post))
    (hm : Event.roomRemoved m ∈ x.events) :
    (∀ e ∈ eventsOf post, (e.Concerns m → e.NotFound m) ∧
      Remnant m (eventsOf (pre ++ x :: post)) (eventsOf (pre ++ [x])) x.after e) ∧
    s.core.rooms.get m = none ∧
      ∀ token t, s.core.tickets.get token = some t → t.matchId ≠ m := by
  obtain ⟨hrefused, -, hgone, htickets⟩ := removed_gone_since h hm
  exact ⟨fun e he => ⟨hrefused e he, remnant_since h hm he⟩, hgone, htickets⟩

end Removed

/-- The event removes the room. -/
def Event.removesRoom (m : String) : Event → Bool
  | .roomRemoved m' => m' == m
  | _ => false

theorem removesRoom_iff {m : String} {e : Event} : e.removesRoom m = true ↔ e = .roomRemoved m := by
  cases e with
  | roomRemoved m' => simp [Event.removesRoom]
  | _ => simp [Event.removesRoom]

/-- The event sends a `JoinOk` of the room. -/
def Event.answersJoin (m : String) : Event → Bool
  | .sentReliable _ (.joinOk m' _ _ _) => m' == m
  | _ => false

/-- A room that is removed between the registration of its player and the answer to it. -/
def removedMeanwhile : List Action :=
  [.createRoom "r" 1, .issueJoinTicket ⟨"m_r", "x"⟩ "1" "t1" 1] ++
  soloJoin 1 ⟨1, 1⟩ "t1" [{}, { fresh := 1 }, {}] ++
  [.deleteRoom "m_r", .join 1 {}, .join 1 {}, .createRoom "q" 2, .listRooms]

/-- The answer is sent, and nothing else is told of the room. -/
theorem removed_for_good_meanwhile : ∃ s pre x post,
    server.recorded.Reach Machine.anyStep s (pre ++ x :: post) ∧
    Event.roomRemoved "m_r" ∈ x.events ∧
    (eventsOf post).any (·.answersJoin "m_r") = true ∧
    ∀ e ∈ eventsOf post, (e.Concerns "m_r" → e.NotFound "m_r") ∧
      Remnant "m_r" (eventsOf (pre ++ x :: post)) (eventsOf (pre ++ [x])) x.after e := by
  obtain ⟨s, log, h, hp⟩ := log_of_actions Machine.anyStep removedMeanwhile
    (fun _ log => ((log.drop 6).head?.any fun x => x.events.any (·.removesRoom "m_r")) &&
      (eventsOf (log.drop 7)).any (·.answersJoin "m_r")) (by decide)
  obtain ⟨hremoved, hanswered⟩ := (Bool.and_eq_true _ _).mp hp
  obtain ⟨x, hx, hevs⟩ := (Option.any_eq_true _ _).mp hremoved
  obtain ⟨post, hdrop⟩ := List.head?_eq_some_iff.mp hx
  obtain ⟨e, he, hremoves⟩ := List.any_eq_true.mp hevs
  obtain rfl := removesRoom_iff.mp hremoves
  have hpost : log.drop 7 = post := by
    rw [← List.drop_drop (i := 1) (j := 6), hdrop, List.drop_one, List.tail_cons]
  rw [← List.take_append_drop 6 log, hdrop] at h
  exact ⟨s, _, x, post, h, he, hpost ▸ hanswered, (removed_for_good h he).1⟩

end Kotatsu
