import Kotatsu.Casts
import Kotatsu.Lib.Broadcast

/-
  What clients are told about parameters

  An accepted change and the broadcast of its `ParamApplied` are in different
  sections, and nothing orders the broadcasts of two changes of one player. A
  broadcast is a task of `Broadcast`, with the changes of the player as the log
  (`announcements`), and a step of the server is a step there (`announces_step`),
  if it does not overtake (`overtakes`):
    1. `params_converge`: then every channel is told in the order of the changes,
       and when nothing about a player is under way, what a channel was told last
       is what the seat stores;
    2. `param_overtaken`: two changes, a cooldown apart, of which the first one is
       told last.
-/

namespace Kotatsu

/-! ## What a message tells -/

/-- The mutation that the message tells about `p`. -/
def ServerReliable.mutationOf (p : String) : ServerReliable → Option ParamMutation
  | .paramApplied p' _ params next _ => if p' = p then some ⟨params, next⟩ else none
  | _ => none

/-- The mutations of `p`, in the order in which they took effect. -/
def mutationsOf (tr : List Event) (p : String) : List ParamMutation :=
  (updatesOf tr p).map (·.updated)

/-- What the channel was told about `p`, in order. -/
def toldOn (tr : List Event) (p : String) (tx : ChanId) : List ParamMutation :=
  (enqueuedOn tr tx).filterMap (·.mutationOf p)

/-- The message tells a change of `p` before the one that ends its cooldown at `next`. -/
def ServerReliable.tellsBefore (p : String) (next : Nat) (msg : ServerReliable) : Bool :=
  (msg.mutationOf p).any fun mu => mu.nextParamChangeAtUnix < next

/-- The step takes the broadcast of a change past the broadcast of an earlier change of
the same player: it collects the recipients before the earlier one has, or puts the
message into a live channel before the earlier one has put its own there. -/
def overtakes (s : Sys) : Action → Bool
  | .cast cid _ =>
    match s.casts.get cid with
    | some (.collect m (.paramApplied p _ _ next _)) =>
      s.core.rooms.contains m && s.casts.values.any fun
        | .collect _ msg => msg.tellsBefore p next
        | .sending _ _ => false
    | some (.sending (tx :: _) (.paramApplied p _ _ next _)) =>
      s.live tx && s.casts.values.any fun
        | .collect _ _ => false
        | .sending txs msg => txs.contains tx && msg.tellsBefore p next
    | _ => false
  | _ => false

theorem mutationOf_eq_some {msg : ServerReliable} {p : String} {mu : ParamMutation} :
    msg.mutationOf p = some mu ↔ ∃ seq ms,
      msg = .paramApplied p seq mu.params mu.nextParamChangeAtUnix ms := by
  constructor
  · intro h
    cases msg with
    | paramApplied p' seq params next ms =>
      simp only [ServerReliable.mutationOf] at h
      split at h
      · next hp =>
        subst hp
        cases h
        exact ⟨seq, ms, rfl⟩
      · cases h
    | _ => cases h
  · intro hex
    obtain ⟨seq, ms, rfl⟩ := hex
    exact if_pos rfl

theorem mutations_quiet {evs : List Event} {p : String}
    (h : ∀ m k d now mu, Event.paramUpdated m p k d now mu ∉ evs) : mutationsOf evs p = [] := by
  rw [mutationsOf, updatesOf_quiet h]
  rfl

theorem mutationsOf_append (tr evs : List Event) (p : String) :
    mutationsOf (tr ++ evs) p = mutationsOf tr p ++ mutationsOf evs p := by
  rw [mutationsOf, updatesOf_append, List.map_append]
  rfl

theorem toldOn_append (tr evs : List Event) (p : String) (tx : ChanId) :
    toldOn (tr ++ evs) p tx = toldOn tr p tx ++ toldOn evs p tx := by
  rw [toldOn, enqueuedOn_append, List.filterMap_append]
  rfl

/-! ## A change is later than the ones before it -/

theorem log_le_next {us : List ParamUpdate} (h : ParamLog us) :
    ∀ u ∈ us, u.updated.nextParamChangeAtUnix ≤ nextAfter us := by
  induction h with
  | nil => simp
  | @snoc us u hus hu ih =>
    intro v hv
    obtain ⟨hnow, hnext, -⟩ := applyParamChange_ok hu
    rw [nextAfter_snoc]
    rcases List.mem_append.mp hv with hv | hv
    · calc v.updated.nextParamChangeAtUnix
          ≤ nextAfter us := ih v hv
        _ ≤ u.nowUnix := hnow
        _ ≤ u.updated.nextParamChangeAtUnix := by omega
    · rw [List.mem_singleton.mp hv]

theorem newest {s : Sys} {tr : List Event} (hi : ParamsLogged s tr) {a : Action}
    {core : CoreState} {evs : List Event} (h : CoreStep s a core evs) {m p : String}
    {k : ParamKind} {d : ParamDirection} {now : Nat} {mu : ParamMutation}
    (he : Event.paramUpdated m p k d now mu ∈ evs) :
    ∀ mu' ∈ mutationsOf tr p, mu'.nextParamChangeAtUnix < mu.nextParamChangeAtUnix := by
  obtain ⟨-, seat, hs, happ, -⟩ := updated_by h he
  obtain ⟨hnow, hnext, -⟩ := applyParamChange_ok happ
  rw [(hi.seat hs).2] at hnow
  intro mu' hm
  obtain ⟨u, hu, rfl⟩ := List.mem_map.mp hm
  have hcool : paramChangeCooldownSecs = 7 := rfl
  calc u.updated.nextParamChangeAtUnix
      ≤ nextAfter (updatesOf tr p) := log_le_next (hi.log p) u hu
    _ ≤ now := hnow
    _ < mu.nextParamChangeAtUnix := by omega

/-! ## Broadcasts under way, by the change they tell -/

/-- Some message under way tells `mu` about `p`, and is at a point that `Q` describes. -/
def Tells (casts : HashMap Nat Cast) (p : String) (mu : ParamMutation) (Q : Cast → Prop) : Prop :=
  ∃ cid c, casts.get cid = some c ∧ c.msg.mutationOf p = some mu ∧ Q c

/-- Each change is told by one broadcast at most. -/
def TellsOnce (casts : HashMap Nat Cast) : Prop :=
  ∀ ⦃cid cid' c c' p mu⦄, casts.get cid = some c → casts.get cid' = some c' →
    c.msg.mutationOf p = some mu → c'.msg.mutationOf p = some mu → cid = cid'

section Tells
variable {casts : HashMap Nat Cast} {p : String} {mu mu' : ParamMutation} {Q : Cast → Prop}
  {cid : Nat} {c c' : Cast}

/-- Where the one broadcast of a change is. -/
theorem tells_at (h1 : TellsOnce casts) (hc : casts.get cid = some c)
    (hm : c.msg.mutationOf p = some mu) : Tells casts p mu Q ↔ Q c := by
  constructor
  · intro h
    obtain ⟨cid', c', hc', hm', hq⟩ := h
    obtain rfl := h1 hc hc' hm hm'
    rw [hc] at hc'
    cases hc'
    exact hq
  · intro hq
    exact ⟨cid, c, hc, hm, hq⟩

/-- Writing a broadcast that does not tell `mu` over one that does not, or none. -/
theorem tells_insert_other (hold : ∀ c, casts.get cid = some c → c.msg.mutationOf p ≠ some mu)
    (hnew : c'.msg.mutationOf p ≠ some mu) :
    Tells (casts.insert cid c') p mu Q ↔ Tells casts p mu Q := by
  constructor
  · intro h
    obtain ⟨cid', c, hc, hm, hq⟩ := h
    rcases HashMap.get_insert_cases hc with ⟨-, rfl⟩ | ⟨-, hc⟩
    · exact absurd hm hnew
    · exact ⟨cid', c, hc, hm, hq⟩
  · intro h
    obtain ⟨cid', c, hc, hm, hq⟩ := h
    have hne : cid' ≠ cid := by
      intro heq
      subst heq
      exact hold c hc hm
    exact ⟨cid', c, (HashMap.get_insert_ne _ _ hne).trans hc, hm, hq⟩

theorem tells_remove_other (hold : ∀ c, casts.get cid = some c → c.msg.mutationOf p ≠ some mu) :
    Tells (casts.remove cid) p mu Q ↔ Tells casts p mu Q := by
  constructor
  · intro h
    obtain ⟨cid', c, hc, hm, hq⟩ := h
    exact ⟨cid', c, (HashMap.get_remove_eq_some.mp hc).2, hm, hq⟩
  · intro h
    obtain ⟨cid', c, hc, hm, hq⟩ := h
    have hne : cid' ≠ cid := by
      intro heq
      subst heq
      exact hold c hc hm
    exact ⟨cid', c, HashMap.get_remove_eq_some.mpr ⟨hne, hc⟩, hm, hq⟩

/-- A broadcast that tells one change tells no other. -/
theorem tells_only (hc : casts.get cid = some c) (hm : c.msg.mutationOf p = some mu)
    (hne : mu' ≠ mu) : ∀ c, casts.get cid = some c → c.msg.mutationOf p ≠ some mu' := by
  intro c₁ hc₁ hm₁
  rw [hc] at hc₁
  cases hc₁
  rw [hm] at hm₁
  exact hne (Option.some.inj hm₁).symm

/-- A broadcast that moves on, or is replaced by one of the same message. -/
theorem tells_moved (h1 : TellsOnce casts) (hc : casts.get cid = some c) (hmsg : c'.msg = c.msg)
    (hm : c.msg.mutationOf p = some mu) :
    Tells (casts.insert cid c') p mu' Q ↔ if mu' = mu then Q c' else Tells casts p mu' Q := by
  split
  · next heq =>
    subst heq
    constructor
    · intro hex
      obtain ⟨cid', c₁, hc₁, hm₁, hq⟩ := hex
      rcases HashMap.get_insert_cases hc₁ with ⟨-, rfl⟩ | ⟨hne, hc₁⟩
      · exact hq
      · exact absurd (h1 hc₁ hc hm₁ hm) hne
    · intro hq
      exact ⟨cid, c', HashMap.get_insert_self _ _ _, hmsg ▸ hm, hq⟩
  · next hne =>
    apply tells_insert_other (tells_only hc hm hne)
    rw [hmsg, hm]
    exact fun h => hne (Option.some.inj h).symm

theorem tells_removed (h1 : TellsOnce casts) (hc : casts.get cid = some c)
    (hm : c.msg.mutationOf p = some mu) :
    Tells (casts.remove cid) p mu' Q ↔ mu' ≠ mu ∧ Tells casts p mu' Q := by
  by_cases heq : mu' = mu
  · subst heq
    constructor
    · intro hex
      obtain ⟨cid', c₁, hc₁, hm₁, -⟩ := hex
      obtain ⟨hne, hc₁⟩ := HashMap.get_remove_eq_some.mp hc₁
      exact absurd (h1 hc₁ hc hm₁ hm) hne
    · intro h
      exact absurd rfl h.1
  · rw [tells_remove_other (tells_only hc hm heq)]
    exact ⟨fun h => ⟨heq, h⟩, And.right⟩

/-- A new broadcast, under a name of its own. -/
theorem tells_new (hf : casts.get cid = none) (hm : c'.msg.mutationOf p = some mu) :
    Tells (casts.insert cid c') p mu' Q ↔ Tells casts p mu' Q ∨ (mu' = mu ∧ Q c') := by
  constructor
  · intro h
    obtain ⟨cid', c₁, hc₁, hm₁, hq⟩ := h
    rcases HashMap.get_insert_cases hc₁ with ⟨-, rfl⟩ | ⟨-, hc₁⟩
    · rw [hm] at hm₁
      exact .inr ⟨(Option.some.inj hm₁).symm, hq⟩
    · exact .inl ⟨cid', c₁, hc₁, hm₁, hq⟩
  · intro h
    rcases h with ⟨cid', c₁, hc₁, hm₁, hq⟩ | ⟨rfl, hq⟩
    · have hne : cid' ≠ cid := HashMap.ne_of_get_none hf hc₁
      exact ⟨cid', c₁, (HashMap.get_insert_ne _ _ hne).trans hc₁, hm₁, hq⟩
    · exact ⟨cid, c', HashMap.get_insert_self _ _ _, hm, hq⟩

theorem tellsOnce_remove (h1 : TellsOnce casts) : TellsOnce (casts.remove cid) := by
  intro cid₁ cid₂ c₁ c₂ p mu hc₁ hc₂
  exact h1 (HashMap.get_remove_eq_some.mp hc₁).2 (HashMap.get_remove_eq_some.mp hc₂).2

/-- A broadcast that moves on tells what it told. -/
theorem tellsOnce_move (h1 : TellsOnce casts) (hc : casts.get cid = some c)
    (hmsg : c'.msg = c.msg) :
    TellsOnce (casts.insert cid c') := by
  intro cid₁ cid₂ c₁ c₂ p mu hc₁ hc₂ hm₁ hm₂
  rcases HashMap.get_insert_cases hc₁ with ⟨rfl, rfl⟩ | ⟨-, ho₁⟩ <;>
    rcases HashMap.get_insert_cases hc₂ with ⟨rfl, rfl⟩ | ⟨-, ho₂⟩
  · rfl
  · rw [hmsg] at hm₁
    exact h1 hc ho₂ hm₁ hm₂
  · rw [hmsg] at hm₂
    exact h1 ho₁ hc hm₁ hm₂
  · exact h1 ho₁ ho₂ hm₁ hm₂

/-- A new broadcast tells a change that none does. -/
theorem tellsOnce_new (h1 : TellsOnce casts) (hnew : ∀ p mu, c'.msg.mutationOf p = some mu →
      ∀ cid c, casts.get cid = some c → c.msg.mutationOf p ≠ some mu) :
    TellsOnce (casts.insert cid c') := by
  intro cid₁ cid₂ c₁ c₂ p mu hc₁ hc₂ hm₁ hm₂
  rcases HashMap.get_insert_cases hc₁ with ⟨rfl, rfl⟩ | ⟨-, ho₁⟩ <;>
    rcases HashMap.get_insert_cases hc₂ with ⟨rfl, rfl⟩ | ⟨-, ho₂⟩
  · rfl
  · exact absurd hm₂ (hnew p mu hm₁ _ _ ho₂)
  · exact absurd hm₁ (hnew p mu hm₂ _ _ ho₁)
  · exact h1 ho₁ ho₂ hm₁ hm₂

end Tells

/-- The message waits for its recipients to be collected. -/
def Cast.collecting : Cast → Prop
  | .collect _ _ => True
  | .sending _ _ => False

/-- The channels that the message has yet to be put into. -/
def Cast.recipients : Cast → List ChanId
  | .collect _ _ => []
  | .sending txs _ => txs

/-- A broadcast that is done with one channel has one less to go to. -/
theorem tells_tail {casts : HashMap Nat Cast} {cid : Nat} {tx : ChanId} {txs : List ChanId}
    {msg : ServerReliable} {p : String} {mu : ParamMutation} (h1 : TellsOnce casts)
    (hc : casts.get cid = some (.sending (tx :: txs) msg)) (hm : msg.mutationOf p = some mu)
    (hnd : (tx :: txs).Nodup) :
    (∀ mu', Tells (casts.insert cid (.sending txs msg)) p mu' Cast.collecting ↔
      Tells casts p mu' Cast.collecting) ∧
    ∀ tx' mu', Tells (casts.insert cid (.sending txs msg)) p mu' (tx' ∈ ·.recipients) ↔
      Tells casts p mu' (tx' ∈ ·.recipients) ∧ ¬ (tx' = tx ∧ mu' = mu) := by
  have hmsg : (Cast.sending txs msg).msg = (Cast.sending (tx :: txs) msg).msg := rfl
  have hnot : tx ∉ txs := (List.nodup_cons.mp hnd).1
  refine ⟨?_, ?_⟩
  · intro mu'
    rw [tells_moved h1 hc hmsg hm]
    by_cases heq : mu' = mu
    · subst heq
      rw [tells_at h1 hc hm]
      simp [Cast.collecting]
    · simp [heq]
  · intro tx' mu'
    rw [tells_moved h1 hc hmsg hm]
    by_cases heq : mu' = mu
    · subst heq
      rw [tells_at h1 hc hm]
      by_cases htx : tx' = tx
      · subst htx
        simp [Cast.recipients, hnot]
      · simp [Cast.recipients, htx]
    · simp [heq]

/-- A step of a broadcast keeps its message, or ends it, and at most sends it. -/
theorem cast_moves {s s' : Sys} {cid : Nat} {evs : List Event} (h : CastStep s cid s' evs) :
    ∃ c, s.casts.get cid = some c ∧
      (s'.casts = s.casts.remove cid ∨
        ∃ c', s'.casts = s.casts.insert cid c' ∧ c'.msg = c.msg) ∧
      (evs = [] ∨ ∃ tx, evs = [.enqueued tx c.msg]) := by
  cases h with
  | noRoom ht _ => exact ⟨_, ht, .inl rfl, .inl rfl⟩
  | done ht => exact ⟨_, ht, .inl rfl, .inl rfl⟩
  | collected ht _ _ => exact ⟨_, ht, .inr ⟨_, rfl, rfl⟩, .inl rfl⟩
  | sent ht _ _ _ => exact ⟨_, ht, .inr ⟨_, rfl, rfl⟩, .inr ⟨_, rfl⟩⟩
  | lost ht _ _ => exact ⟨_, ht, .inr ⟨_, rfl, rfl⟩, .inl rfl⟩

/-- A broadcast that does not overtake collects after the earlier ones. -/
theorem collects_after {s : Sys} {cid : Nat} {ch : Choice} {m p : String} {msg : ServerReliable}
    {mu : ParamMutation} {room : MatchRoom} (hg : overtakes s (.cast cid ch) = false)
    (hc : s.casts.get cid = some (.collect m msg)) (hm : msg.mutationOf p = some mu)
    (hr : s.core.rooms.get m = some room) :
    ∀ mu', Tells s.casts p mu' Cast.collecting →
      ¬ mu'.nextParamChangeAtUnix < mu.nextParamChangeAtUnix := by
  intro mu' h hlt
  obtain ⟨cid', c, hc', hm', hq⟩ := h
  obtain ⟨seq, ms, rfl⟩ := mutationOf_eq_some.mp hm
  have hroom : s.core.rooms.contains m = true := HashMap.contains_iff.mpr ⟨room, hr⟩
  simp only [overtakes, hc, hroom, Bool.true_and, List.any_eq_false] at hg
  have hcast := hg c (HashMap.mem_values.mpr ⟨cid', hc'⟩)
  cases c with
  | sending txs msg' => exact hq
  | collect m' msg' =>
    have htells : msg'.mutationOf p = some mu' := hm'
    simp [ServerReliable.tellsBefore, htells] at hcast
    omega

/-- It puts its message into a live channel after the earlier ones. -/
theorem sends_after {s : Sys} {cid : Nat} {ch : Choice} {p : String} {tx : ChanId}
    {txs : List ChanId} {msg : ServerReliable} {mu : ParamMutation}
    (hg : overtakes s (.cast cid ch) = false)
    (hc : s.casts.get cid = some (.sending (tx :: txs) msg)) (hm : msg.mutationOf p = some mu)
    (hl : s.live tx = true) :
    ∀ mu', Tells s.casts p mu' (tx ∈ ·.recipients) →
      ¬ mu'.nextParamChangeAtUnix < mu.nextParamChangeAtUnix := by
  intro mu' h hlt
  obtain ⟨cid', c, hc', hm', hq⟩ := h
  obtain ⟨seq, ms, rfl⟩ := mutationOf_eq_some.mp hm
  simp only [overtakes, hc, hl, Bool.true_and, List.any_eq_false] at hg
  have hcast := hg c (HashMap.mem_values.mpr ⟨cid', hc'⟩)
  cases c with
  | collect m' msg' => cases hq
  | sending txs' msg' =>
    have htells : msg'.mutationOf p = some mu' := hm'
    have htx : tx ∈ txs' := hq
    simp [ServerReliable.tellsBefore, htells, htx] at hcast
    omega

/-! ## What a broadcast relies on -/

/-- The channel is that of a player registered in the room of `p`. -/
def Audience (tr : List Event) (p : String) (tx : ChanId) : Prop :=
  ∃ m, (∃ q a, Event.registered m q a tx ∈ tr) ∧ ∃ a tx', Event.registered m p a tx' ∈ tr

theorem Audience.append {tr : List Event} {p : String} {tx : ChanId} (h : Audience tr p tx)
    (evs : List Event) : Audience (tr ++ evs) p tx := by
  obtain ⟨m, ⟨q, a, hq⟩, a', tx', hp⟩ := h
  exact ⟨m, ⟨q, a, List.mem_append_left _ hq⟩, a', tx', List.mem_append_left _ hp⟩

/-- A broadcast about a player tells a change that it made, in the room where it is
registered, to channels of that room, each one once. -/
def Cast.Grounded (tr : List Event) (c : Cast) : Prop :=
  ∀ p mu, c.msg.mutationOf p = some mu → mu ∈ mutationsOf tr p ∧
    match c with
    | .collect m _ => ∃ a tx, Event.registered m p a tx ∈ tr
    | .sending txs _ => txs.Nodup ∧ ∀ tx ∈ txs, Audience tr p tx

theorem Cast.Grounded.append {tr : List Event} {c : Cast} (h : c.Grounded tr)
    (evs : List Event) : c.Grounded (tr ++ evs) := by
  intro p mu hm
  obtain ⟨hmu, hrest⟩ := h p mu hm
  rw [mutationsOf_append]
  refine ⟨List.mem_append_left _ hmu, ?_⟩
  cases c with
  | collect m msg =>
    obtain ⟨a, tx, hreg⟩ := hrest
    exact ⟨a, tx, List.mem_append_left _ hreg⟩
  | sending txs msg => exact ⟨hrest.1, fun tx htx => (hrest.2 tx htx).append evs⟩

/-- A broadcast that is done with one channel goes on to the others. -/
theorem Cast.Grounded.tail {tr : List Event} {tx : ChanId} {txs : List ChanId}
    {msg : ServerReliable} (h : (Cast.sending (tx :: txs) msg).Grounded tr) :
    (Cast.sending txs msg).Grounded tr := by
  intro p mu hm
  obtain ⟨hmu, hnd, haud⟩ := h p mu hm
  exact ⟨hmu, (List.nodup_cons.mp hnd).2, fun tx' htx' => haud tx' (List.mem_cons_of_mem _ htx')⟩

theorem grounded_of_none {tr : List Event} {c : Cast} (h : ∀ p, c.msg.mutationOf p = none) :
    c.Grounded tr := by
  intro p mu hm
  rw [h p] at hm
  cases hm

structure Announced (s : Sys) (tr : List Event) : Prop where
  once : TellsOnce s.casts
  grounded : ∀ {cid c}, s.casts.get cid = some c → c.Grounded tr
  told : ∀ {p tx mu}, mu ∈ toldOn tr p tx → Audience tr p tx

theorem told_quiet {evs : List Event} (h : ∀ e ∈ evs, e.offCasts = true) (p : String)
    (tx : ChanId) : toldOn evs p tx = [] := by
  have hq : enqueuedOn evs tx = [] := by
    refine List.filterMap_eq_nil_iff.mpr fun e he => ?_
    have := h e he
    cases e with
    | enqueued tx' msg => cases this
    | _ => rfl
  rw [toldOn, hq]
  rfl

theorem told_enqueued (p : String) (tx tx' : ChanId) (msg : ServerReliable) :
    toldOn [.enqueued tx' msg] p tx = if tx' = tx then (msg.mutationOf p).toList else [] := by
  by_cases h : tx' = tx
  · subst h
    cases hm : msg.mutationOf p <;> simp [toldOn, enqueuedOn, Event.enqueuedOn, hm]
  · simp [toldOn, enqueuedOn, Event.enqueuedOn, h]

/-- The steps on broadcasts that there are, or that tell no change. -/
theorem announced_insert {s s' : Sys} {tr evs : List Event} {cid : Nat} {c' : Cast}
    (hi : Announced s tr) (hc : s'.casts = s.casts.insert cid c') (hnew : c'.Grounded (tr ++ evs))
    (honce : TellsOnce (s.casts.insert cid c'))
    (htold : ∀ {p tx mu}, mu ∈ toldOn evs p tx → Audience tr p tx) : Announced s' (tr ++ evs) := by
  refine ⟨hc ▸ honce, ?_, ?_⟩
  · intro cid' c hget
    rw [hc] at hget
    rcases HashMap.get_insert_cases hget with ⟨-, rfl⟩ | ⟨-, hget⟩
    · exact hnew
    · exact (hi.grounded hget).append evs
  · intro p tx mu hm
    rw [toldOn_append] at hm
    rcases List.mem_append.mp hm with hm | hm
    · exact (hi.told hm).append evs
    · exact (htold hm).append evs

theorem announced_fewer {s s' : Sys} {tr evs : List Event} (hi : Announced s tr)
    (honce : TellsOnce s'.casts)
    (hc : ∀ cid c, s'.casts.get cid = some c → s.casts.get cid = some c)
    (htold : ∀ p tx, toldOn evs p tx = []) : Announced s' (tr ++ evs) := by
  refine ⟨honce, fun hget => (hi.grounded (hc _ _ hget)).append evs, ?_⟩
  intro p tx mu hm
  rw [toldOn_append, htold, List.append_nil] at hm
  exact (hi.told hm).append evs

theorem announced_step {s s' : Sys} {tr : List Event} (hreg : Registry s tr)
    (hents : Registrants s tr) (hlog : ParamsLogged s tr) (hi : Announced s tr) {a : Action}
    {evs : List Event} (h : Step s a s' evs) : Announced s' (tr ++ evs) := by
  have htold0 : ∀ p tx, toldOn [] p tx = [] := fun _ _ => rfl
  have hcore : CoreStep s a s'.core evs := step_core h
  cases casts_step h with
  | quiet hc he =>
    exact announced_fewer hi (hc ▸ hi.once) (fun _ _ hget => hc ▸ hget) (told_quiet he)
  | refused hf hc _ =>
    refine announced_insert hi hc (grounded_of_none fun _ => rfl) ?_ ?_
    · exact tellsOnce_new hi.once fun p mu hm => by cases hm
    · intro p tx mu hm
      cases hm
  | started hf _ _ hc =>
    refine announced_insert hi hc (grounded_of_none fun _ => rfl) ?_ ?_
    · exact tellsOnce_new hi.once fun p mu hm => by cases hm
    · intro p tx mu hm
      cases hm
  | @updated tid cid seq nowMs now ch m p k d mu hf hc =>
    obtain ⟨-, seat, hs, -⟩ := updated_by hcore (List.mem_singleton_self _)
    obtain ⟨a₀, hr, -⟩ := seat_registered hents hs
    have hnew := newest hlog hcore (List.mem_singleton_self _)
    refine announced_insert hi hc ?_ ?_ ?_
    · intro p' mu' hm
      obtain ⟨seq', ms, heq⟩ := mutationOf_eq_some.mp hm
      obtain ⟨rfl, -, hparams, hnext, -⟩ := ServerReliable.paramApplied.inj heq
      obtain rfl : mu = mu' := by
        cases mu
        cases mu'
        exact congrArg₂ ParamMutation.mk hparams hnext
      refine ⟨?_, a₀, _, List.mem_append_left _ hr⟩
      rw [mutationsOf_append, mutationsOf, mutationsOf, updatesOf_self]
      exact List.mem_append_right _ (List.mem_singleton_self _)
    · -- no broadcast tells the new change yet
      refine tellsOnce_new hi.once fun p' mu' hm cid' c' hget hm' => ?_
      obtain ⟨seq', ms, heq⟩ := mutationOf_eq_some.mp hm
      obtain ⟨rfl, -, -, hnext, -⟩ := ServerReliable.paramApplied.inj heq
      have hlt := hnew mu' (hi.grounded hget p mu' hm').1
      omega
    · intro p' tx mu' hm
      cases hm
  | cast h =>
    cases h with
    | noRoom _ _ | done _ =>
      exact announced_fewer hi (tellsOnce_remove hi.once)
        (fun _ _ hget => (HashMap.get_remove_eq_some.mp hget).2) htold0
    | @collected m msg room txs ht hr hp =>
      refine announced_insert hi rfl ?_ (tellsOnce_move hi.once ht rfl) (by simp [htold0])
      intro p mu hm
      obtain ⟨hmu, a₀, tx₀, hhome⟩ := hi.grounded ht p mu hm
      rw [List.append_nil]
      refine ⟨hmu, hp.nodup_iff.mpr (recipients_nodup hreg hents hr), ?_⟩
      intro tx htx
      obtain ⟨q, seat, hq, rfl⟩ := mem_recipients.mp (hp.mem_iff.mp htx)
      obtain ⟨b, hreg', -⟩ := seat_registered hents ((seat_of_room hr q).trans hq)
      exact ⟨m, ⟨q, b, hreg'⟩, a₀, tx₀, hhome⟩
    | @sent tx txs msg chan ht hc ha hl =>
      refine announced_insert hi rfl ((hi.grounded ht).tail.append _)
        (tellsOnce_move hi.once ht rfl) ?_
      intro p tx' mu hm
      rw [told_enqueued] at hm
      split at hm
      · next htx =>
        subst htx
        have hmu : msg.mutationOf p = some mu := by simpa using hm
        exact (hi.grounded ht p mu hmu).2.2 tx List.mem_cons_self
      · cases hm
    | lost ht _ _ =>
      exact announced_insert hi rfl ((hi.grounded ht).tail.append _)
        (tellsOnce_move hi.once ht rfl) (by simp [htold0])

theorem announced {G : Sys → Action → Prop} {s : Sys} {tr : List Event}
    (h : server.Reach G s tr) : Announced s tr := by
  refine Machine.Reach.induct (P := Announced) ?_ ?_ h
  · intro s hinit
    obtain ⟨url, rfl⟩ := hinit
    refine ⟨?_, ?_, ?_⟩
    · intro cid cid' c c' p mu hc
      cases hc
    · intro cid c hc
      cases hc
    · intro p tx mu hm
      cases hm
  · intro s tr a s' evs hreach ih _ hs
    exact announced_step (registry hreach) (registrants hreach) (params_logged hreach) ih
      (step_spec hs)

/-! ## The server as a broadcaster -/

/-- What is under way about `p`. A channel counts as live as long as its room is
there. -/
def announcements (s : Sys) (tr : List Event) (p : String) :
    Broadcast.State ParamMutation ChanId where
  log := mutationsOf tr p
  waits mu := Tells s.casts p mu Cast.collecting
  pends tx mu := Tells s.casts p mu (tx ∈ ·.recipients)
  sent tx := toldOn tr p tx
  live tx := s.live tx = true ∧ ∃ m room, s.core.rooms.get m = some room ∧
    (∃ q a, Event.registered m q a tx ∈ tr) ∧ ∃ a tx', Event.registered m p a tx' ∈ tr
  opened := ∀ m a tx, Event.registered m p a tx ∈ tr → ∃ room, s.core.rooms.get m = some room

/-- What the invariants of the modules before say about a state and its history. -/
structure Accounted (s : Sys) (tr : List Event) : Prop where
  seats : LiveSeats s tr
  registry : Registry s tr
  registrants : Registrants s tr
  params : ParamsLogged s tr
  announced : Announced s tr

theorem accounted {G : Sys → Action → Prop} {s : Sys} {tr : List Event}
    (h : server.Reach G s tr) : Accounted s tr :=
  ⟨live_seats h, registry h, registrants h, params_logged h, announced h⟩

section Simulation
variable {s s' : Sys} {tr evs : List Event} {a : Action} {p : String}

theorem reaches_audience (hi : Announced s tr) {tx : ChanId} {mu : ParamMutation}
    (h : (announcements s tr p).Reaches tx mu) : Audience tr p tx := by
  rcases h with h | ⟨cid, c, hc, hm, htx⟩
  · exact hi.told h
  · cases c with
    | collect m msg => cases htx
    | sending txs msg => exact (hi.grounded hc p mu hm).2.2 tx htx

/-- A live channel that something reaches was live before. -/
theorem live_before (hi : Accounted s tr) (hreg' : Registry s' (tr ++ evs)) (h : Step s a s' evs)
    {tx : ChanId} (hl : (announcements s' (tr ++ evs) p).live tx) :
    (announcements s tr p).live tx ∨ ∀ mu, ¬ (announcements s tr p).Reaches tx mu := by
  by_cases hreach : ∃ mu, (announcements s tr p).Reaches tx mu
  · refine .inl ?_
    obtain ⟨hlive', m, room', hr', -, a', tx', hp'⟩ := hl
    obtain ⟨mu, hmu⟩ := hreach
    obtain ⟨m₁, ⟨q, b, hq⟩, b', tx₁, hp⟩ := reaches_audience hi.announced hmu
    obtain ⟨rfl, -⟩ := hreg'.once hp' (List.mem_append_left evs hp)
    have hlive : s.live tx = true := live_kept hi.registry h hq hlive'
    obtain ⟨room, hr⟩ := room_before h (hi.seats.seen hq) hr'
    exact ⟨hlive, m, room, hr, ⟨q, b, hq⟩, b', tx₁, hp⟩
  · exact .inr fun mu hmu => hreach ⟨mu, hmu⟩

theorem opened_before (hi : Accounted s tr) (h : Step s a s' evs)
    (ho : (announcements s' (tr ++ evs) p).opened) : (announcements s tr p).opened := by
  intro m b tx hp
  obtain ⟨room', hr'⟩ := ho m b tx (List.mem_append_left _ hp)
  exact room_before h (hi.seats.seen hp) hr'

theorem live_opened (hreg : Registry s tr) {tx : ChanId} (hl : (announcements s tr p).live tx) :
    (announcements s tr p).opened := by
  obtain ⟨-, m, room, hr, -, b, tx₁, hp⟩ := hl
  intro m' b' tx' hp'
  obtain ⟨rfl, -⟩ := hreg.once hp hp'
  exact ⟨room, hr⟩

/-- A step that registers nobody and leaves the rooms there. -/
theorem kept_of_rooms (hi : Accounted s tr) (h : Step s a s' evs)
    (hreg : ∀ m q b tx, Event.registered m q b tx ∉ evs)
    (hrooms : ∀ m, Event.roomRemoved m ∉ evs) :
    Broadcast.Kept (announcements s tr p) (announcements s' (tr ++ evs) p) := by
  have hold : ∀ {m q b tx}, Event.registered m q b tx ∈ tr ++ evs →
      Event.registered m q b tx ∈ tr := by
    intro m q b tx hm
    exact (List.mem_append.mp hm).resolve_right (hreg m q b tx)
  refine ⟨?_, fun ho => opened_before hi h ho, ?_⟩
  · intro tx hl
    obtain ⟨hlive', m, room', hr', ⟨q, b, hq⟩, b', tx', hp⟩ := hl
    have hlive : s.live tx = true := live_kept hi.registry h (hold hq) hlive'
    obtain ⟨room, hr⟩ := room_before h (hi.seats.seen (hold hq)) hr'
    exact ⟨hlive, m, room, hr, ⟨q, b, hold hq⟩, b', tx', hold hp⟩
  · intro ho m b tx hm
    obtain ⟨room, hr⟩ := ho m b tx (hold hm)
    exact room_after (step_core h) hr (hrooms m)

/-- A step that puts nothing about `p` under way and sends nothing about it. -/
theorem announces_change (hi : Accounted s tr) (hreg' : Registry s' (tr ++ evs))
    (h : Step s a s' evs) (hlog : mutationsOf evs p = []) (htold : ∀ tx, toldOn evs p tx = [])
    (hw : ∀ mu, Tells s'.casts p mu Cast.collecting ↔ Tells s.casts p mu Cast.collecting)
    (hp : ∀ tx mu, Tells s'.casts p mu (tx ∈ ·.recipients) ↔
      Tells s.casts p mu (tx ∈ ·.recipients)) :
    Broadcast.Step ParamMutation.nextParamChangeAtUnix (announcements s tr p)
      (announcements s' (tr ++ evs) p) := by
  refine .change ?_ hw hp ?_ (fun tx hl => live_before hi hreg' h hl)
    (fun ho => opened_before hi h ho) fun tx hl => live_opened hreg' hl
  · show mutationsOf (tr ++ evs) p = mutationsOf tr p
    rw [mutationsOf_append, hlog, List.append_nil]
  · intro tx
    show toldOn (tr ++ evs) p tx = toldOn tr p tx
    rw [toldOn_append, htold, List.append_nil]

/-- A step that leaves the broadcasts about `p` where they are. -/
theorem announces_same (hi : Accounted s tr) (hreg' : Registry s' (tr ++ evs))
    (h : Step s a s' evs) (hlog : mutationsOf evs p = []) (htold : ∀ tx, toldOn evs p tx = [])
    (hsame : ∀ mu Q, Tells s'.casts p mu Q ↔ Tells s.casts p mu Q) :
    Broadcast.Step ParamMutation.nextParamChangeAtUnix (announcements s tr p)
      (announcements s' (tr ++ evs) p) :=
  announces_change hi hreg' h hlog htold (fun mu => hsame mu _) fun _ mu => hsame mu _

/-- A step of a broadcast that says nothing about `p`. -/
theorem announces_silent (hi : Accounted s tr) (hreg' : Registry s' (tr ++ evs)) {cid : Nat}
    (ch : Choice) (h : CastStep s cid s' evs)
    (hno : ∀ mu c, s.casts.get cid = some c → c.msg.mutationOf p ≠ some mu) :
    Broadcast.Step ParamMutation.nextParamChangeAtUnix (announcements s tr p)
      (announcements s' (tr ++ evs) p) := by
  obtain ⟨c, hc, hcasts, hevs⟩ := cast_moves h
  have hnone : c.msg.mutationOf p = none :=
    Option.eq_none_iff_forall_ne_some.mpr fun mu => hno mu c hc
  have hsame : ∀ mu Q, Tells s'.casts p mu Q ↔ Tells s.casts p mu Q := by
    intro mu Q
    rcases hcasts with hcasts | ⟨c', hcasts, hmsg⟩
    · rw [hcasts]
      exact tells_remove_other (hno mu)
    · rw [hcasts]
      apply tells_insert_other (hno mu)
      rw [hmsg]
      exact hno mu c hc
  refine announces_same hi hreg' (.cast h : Step s (.cast cid ch) s' evs) ?_ ?_ hsame
  · apply mutations_quiet
    intro m k d now mu he
    rcases hevs with rfl | ⟨tx, rfl⟩ <;> simp at he
  · intro tx
    rcases hevs with rfl | ⟨tx', rfl⟩
    · rfl
    · rw [told_enqueued, hnone]
      split <;> rfl

/-- A step of the broadcast that tells `mu` about `p`. -/
theorem announces_telling (hi : Accounted s tr) (hreg' : Registry s' (tr ++ evs)) {cid : Nat}
    {ch : Choice} (hg : overtakes s (.cast cid ch) = false) (h : CastStep s cid s' evs) {c : Cast}
    {mu : ParamMutation} (hc : s.casts.get cid = some c) (hm : c.msg.mutationOf p = some mu) :
    Broadcast.Step ParamMutation.nextParamChangeAtUnix (announcements s tr p)
      (announcements s' (tr ++ evs) p) := by
  have hstep : Step s (.cast cid ch) s' evs := .cast h
  have h1 : TellsOnce s.casts := hi.announced.once
  have hground := hi.announced.grounded hc p mu hm
  cases h with
  | noRoom ht hr =>
    rw [hc] at ht
    cases ht
    obtain ⟨-, b, tx₀, hhome⟩ := hground
    refine .abandon mu ?_ (by rw [List.append_nil]; rfl) ?_ ?_ (by intro; rw [List.append_nil]; rfl)
      (kept_of_rooms hi hstep (by simp) (by simp))
    · intro ho
      obtain ⟨room, hroom⟩ := ho _ b tx₀ hhome
      rw [hr] at hroom
      cases hroom
    · intro mu'
      show Tells (s.casts.remove cid) p mu' _ ↔ Tells s.casts p mu' _ ∧ mu' ≠ mu
      rw [tells_removed h1 hc hm, and_comm]
    · intro tx mu'
      show Tells (s.casts.remove cid) p mu' _ ↔ Tells s.casts p mu' _
      rw [tells_removed h1 hc hm]
      by_cases heq : mu' = mu
      · subst heq
        rw [tells_at h1 hc hm]
        simp [Cast.recipients]
      · simp [heq]
  | @collected m msg room txs ht hr hperm =>
    rw [hc] at ht
    cases ht
    obtain ⟨-, b, tx₀, hhome⟩ := hground
    have hmsg : (Cast.sending txs msg).msg = (Cast.collect m msg).msg := rfl
    refine .snapshot mu (· ∈ txs) ⟨cid, _, hc, hm, trivial⟩ (collects_after hg hc hm hr) ?_
      (by rw [List.append_nil]; rfl) ?_ ?_ (by intro; rw [List.append_nil]; rfl)
      (kept_of_rooms hi hstep (by simp) (by simp))
    · -- a live channel of the room is that of a seat
      intro tx hlive
      obtain ⟨hl, m', room', hr', ⟨q, b', hq⟩, b'', tx₁, hp⟩ := hlive
      obtain ⟨rfl, -⟩ := hi.registry.once hp hhome
      obtain ⟨seat, hs, hlink⟩ := link_eq_some.mp (hi.seats.seated hq hl hr')
      have htx : seat.reliableTx = tx := (Prod.mk.inj hlink).2
      exact hperm.mem_iff.mpr (mem_recipients.mpr
        ⟨q, seat, (seat_of_room hr q).symm.trans hs, htx⟩)
    · intro mu'
      show Tells (s.casts.insert cid _) p mu' _ ↔ Tells s.casts p mu' _ ∧ mu' ≠ mu
      rw [tells_moved h1 hc hmsg hm]
      by_cases heq : mu' = mu
      · simp [heq, Cast.collecting]
      · simp [heq]
    · intro tx mu'
      show Tells (s.casts.insert cid _) p mu' _ ↔ Tells s.casts p mu' _ ∨ _
      rw [tells_moved h1 hc hmsg hm]
      by_cases heq : mu' = mu
      · subst heq
        rw [tells_at h1 hc hm]
        simp [Cast.recipients]
      · simp [heq]
  | @done msg ht =>
    rw [hc] at ht
    cases ht
    -- it has nothing left to do
    have hsame : ∀ mu' (Q : Cast → Prop), ¬ Q (.sending [] msg) →
        (Tells (s.casts.remove cid) p mu' Q ↔ Tells s.casts p mu' Q) := by
      intro mu' Q hq
      rw [tells_removed h1 hc hm]
      by_cases heq : mu' = mu
      · subst heq
        rw [tells_at h1 hc hm]
        simp [hq]
      · simp [heq]
    exact announces_change hi hreg' hstep rfl (fun _ => rfl)
      (fun mu' => hsame mu' _ (by simp [Cast.collecting]))
      fun tx mu' => hsame mu' _ (by simp [Cast.recipients])
  | @sent tx txs msg chan ht hch ha hlen =>
    rw [hc] at ht
    cases ht
    obtain ⟨hw, hp⟩ := tells_tail h1 hc hm hground.2.1
    refine .send tx mu ⟨cid, _, hc, hm, List.mem_cons_self⟩
      (sends_after hg hc hm (live_iff.mpr ⟨chan, hch, ha⟩)) ?_ hw hp ?_ ?_
      (kept_of_rooms hi hstep (by simp) (by simp))
    · show mutationsOf (tr ++ _) p = mutationsOf tr p
      rw [mutationsOf_append]
      exact List.append_nil _
    · intro tx' hne
      show toldOn (tr ++ _) p tx' = toldOn tr p tx'
      rw [toldOn_append, told_enqueued, if_neg (Ne.symm hne), List.append_nil]
    · have hmsg : msg.mutationOf p = some mu := hm
      show toldOn (tr ++ _) p tx = toldOn tr p tx ++ [mu]
      rw [toldOn_append, told_enqueued, if_pos rfl, hmsg]
      rfl
  | @lost tx txs msg chan ht hch ha =>
    rw [hc] at ht
    cases ht
    obtain ⟨hw, hp⟩ := tells_tail h1 hc hm hground.2.1
    refine .lose tx mu ?_ (by rw [List.append_nil]; rfl) hw hp
      (by intro; rw [List.append_nil]; rfl) (kept_of_rooms hi hstep (by simp) (by simp))
    intro hlive
    obtain ⟨hl, -⟩ := hlive
    obtain ⟨chan', hch', ha'⟩ := live_iff.mp hl
    rw [hch] at hch'
    cases hch'
    rw [ha] at ha'
    cases ha'

theorem announces_step (hi : Accounted s tr) (hreg' : Registry s' (tr ++ evs))
    (hg : overtakes s a = false) (h : Step s a s' evs) :
    Broadcast.Step ParamMutation.nextParamChangeAtUnix (announcements s tr p)
      (announcements s' (tr ++ evs) p) := by
  cases casts_step h with
  | quiet hc he =>
    have hsame : ∀ mu Q, Tells s'.casts p mu Q ↔ Tells s.casts p mu Q := by
      intro mu Q
      rw [hc]
    refine announces_same hi hreg' h ?_ (told_quiet he p) hsame
    apply mutations_quiet
    intro m k d now mu hm
    have := he _ hm
    cases this
  | @refused tid cid now ch tx m₀ p₀ e k₀ d₀ hf hc he =>
    refine announces_same hi hreg' h rfl (fun _ => rfl) fun mu Q => ?_
    rw [hc]
    exact tells_insert_other (by simp [hf]) (by simp [Cast.msg, ServerReliable.mutationOf])
  | @started m sh ch room hf hr h0 hc =>
    refine announces_same hi hreg' h rfl (fun _ => rfl) fun mu Q => ?_
    rw [hc]
    exact tells_insert_other (by simp [hf]) (by simp [Cast.msg, ServerReliable.mutationOf])
  | @updated tid cid seq nowMs now ch m p₀ k d mu hf hc =>
    by_cases hp : p₀ = p
    · subst hp
      have hnew := newest hi.params (step_core h) (List.mem_singleton_self _)
      have hmsg : (ServerReliable.paramApplied p₀ seq mu.params mu.nextParamChangeAtUnix
          nowMs).mutationOf p₀ = some mu := if_pos rfl
      have htells : ∀ mu' Q, Tells s'.casts p₀ mu' Q ↔ Tells s.casts p₀ mu' Q ∨ (mu' = mu ∧
          Q (.collect m (.paramApplied p₀ seq mu.params mu.nextParamChangeAtUnix nowMs))) := by
        intro mu' Q
        rw [hc]
        exact tells_new hf hmsg
      refine .append mu hnew ?_ ?_ ?_ ?_ (kept_of_rooms hi h (by simp) (by simp))
      · show mutationsOf (tr ++ _) p₀ = mutationsOf tr p₀ ++ [mu]
        rw [mutationsOf_append]
        congr 1
        rw [mutationsOf, updatesOf_self]
        rfl
      · intro mu'
        exact (htells mu' _).trans (by simp [Cast.collecting, announcements])
      · intro tx mu'
        exact (htells mu' _).trans (by simp [Cast.recipients, announcements])
      · intro tx
        show toldOn (tr ++ _) p₀ tx = toldOn tr p₀ tx
        rw [toldOn_append]
        exact List.append_nil _
    · have hother : ∀ mu', (Cast.collect m (.paramApplied p₀ seq mu.params
          mu.nextParamChangeAtUnix nowMs)).msg.mutationOf p ≠ some mu' := by
        intro mu'
        simp [Cast.msg, ServerReliable.mutationOf, hp]
      have hsame : ∀ mu Q, Tells s'.casts p mu Q ↔ Tells s.casts p mu Q := by
        intro mu' Q
        rw [hc]
        exact tells_insert_other (by simp [hf]) (hother mu')
      refine announces_same hi hreg' h ?_ (fun _ => rfl) hsame
      apply mutations_quiet
      intro m' k' d' now' mu' hm
      simp only [List.mem_singleton, Event.paramUpdated.injEq] at hm
      exact hp hm.2.1.symm
  | @cast cid ch evs h =>
    by_cases hm : ∃ c mu, s.casts.get cid = some c ∧ c.msg.mutationOf p = some mu
    · obtain ⟨c, mu, hc, hm⟩ := hm
      exact announces_telling hi hreg' hg h hc hm
    · exact announces_silent hi hreg' ch h fun mu c hc hmu => hm ⟨c, mu, hc, hmu⟩

end Simulation

/-- While no broadcast overtakes, what is under way about a player is ordered. -/
theorem announces_ordered {s : Sys} {tr : List Event}
    (h : server.Reach (fun s a => overtakes s a = false) s tr) :
    ∀ p, Broadcast.Ordered ParamMutation.nextParamChangeAtUnix (announcements s tr p) := by
  refine Machine.Reach.induct (P := fun s tr => ∀ p,
    Broadcast.Ordered ParamMutation.nextParamChangeAtUnix (announcements s tr p)) ?_ ?_ h
  · intro s hinit p
    obtain ⟨url, rfl⟩ := hinit
    have hno : ∀ {mu Q}, ¬ Tells (Sys.init url).casts p mu Q := by
      intro mu Q htells
      obtain ⟨cid, c, hc, -⟩ := htells
      cases hc
    have hreach : ∀ {tx mu}, ¬ (announcements (Sys.init url) [] p).Reaches tx mu := by
      intro tx mu hreaches
      rcases hreaches with hm | hm
      · cases hm
      · exact hno hm
    refine ⟨.nil, fun hw => absurd hw hno, fun hr => absurd hr hreach, fun _ => .nil,
      fun hp _ => absurd hp hno, fun hw _ => absurd hw hno, fun _ hw _ => absurd hw hno, ?_,
      fun _ hr => absurd hr hreach⟩
    intro tx hlive
    obtain ⟨hl, -⟩ := hlive
    cases hl
  · intro s tr a s' evs hreach ih hg hs p
    exact (ih p).step (announces_step (accounted hreach) (registry (hreach.step hg hs)) hg
      (step_spec hs))

/-! ## What clients see -/

/-- Every channel is told the changes of a player in the order in which they took
effect. -/
def ToldInOrder (tr : List Event) : Prop :=
  ∀ p tx, (toldOn tr p tx).Sublist (mutationsOf tr p)

/-- Nothing about `p` is under way. -/
def Silent (s : Sys) (p : String) : Prop :=
  ∀ cid c, s.casts.get cid = some c → c.msg.mutationOf p = none

/-- When nothing about a seated player is under way, the last thing about it in a
queue, or ever put into a live channel, is what its seat stores. -/
def ToldLatest (s : Sys) (tr : List Event) : Prop :=
  ∀ m p seat, s.core.seat m p = some seat → Silent s p →
    ∀ tx chan mu, s.chans.get tx = some chan →
      (chan.queue.filterMap (·.mutationOf p)).getLast? = some mu ∨
        (chan.alive = true ∧ (toldOn tr p tx).getLast? = some mu) →
      mu = ⟨seat.params, seat.nextParamChangeAtUnix⟩

/-- What is last in a queue is last of what was put into its channel, which is live. -/
theorem queue_last {s : Sys} {tr : List Event} (hq : Queues s.chans tr) {tx : ChanId}
    {chan : Channel} (hc : s.chans.get tx = some chan) {p : String} {mu : ParamMutation}
    (hlast : (chan.queue.filterMap (·.mutationOf p)).getLast? = some mu) :
    chan.alive = true ∧ (toldOn tr p tx).getLast? = some mu := by
  obtain ⟨⟨pre, hpre⟩, hdead⟩ := hq tx chan hc
  refine ⟨?_, ?_⟩
  · by_contra ha
    rw [hdead (by simpa using ha)] at hlast
    cases hlast
  · rw [toldOn, ← hpre, List.filterMap_append, List.getLast?_append, hlast]
    rfl

/-- A seat stores what the last change of its player returned. -/
theorem stored_last {s : Sys} {tr : List Event} (hi : ParamsLogged s tr) {m p : String}
    {seat : PlayerHandle} (hs : s.core.seat m p = some seat) {mu : ParamMutation}
    (hlast : (mutationsOf tr p).getLast? = some mu) :
    mu = ⟨seat.params, seat.nextParamChangeAtUnix⟩ := by
  rw [mutationsOf, List.getLast?_map] at hlast
  obtain ⟨u, hu, rfl⟩ := Option.map_eq_some_iff.mp hlast
  obtain ⟨hparams, hnext⟩ := hi.seat hs
  rw [hparams, hnext, paramsAfter, nextAfter, hu]
  rfl

/-- While no broadcast overtakes, every channel is told the changes in their order,
and ends up with what is stored. -/
theorem params_converge {s : Sys} {tr : List Event}
    (h : server.Reach (fun s a => overtakes s a = false) s tr) :
    ToldInOrder tr ∧ ToldLatest s tr := by
  have hi : Accounted s tr := accounted h
  refine ⟨fun p tx => (announces_ordered h p).sent_sublist tx, ?_⟩
  intro m p seat hs hsilent tx chan mu hc hlast
  obtain ⟨ha, hlast⟩ := hlast.elim (queue_last (queues h) hc) id
  -- the channel belongs to the room of `p`, which is there
  obtain ⟨m', hmember, b, tx', hp⟩ := hi.announced.told (List.mem_of_getLast? hlast)
  obtain ⟨b', hp', -⟩ := seat_registered hi.registrants hs
  obtain ⟨rfl, -⟩ := hi.registry.once hp hp'
  obtain ⟨room, hr, -⟩ := seat_eq_some.mp hs
  have hlive : (announcements s tr p).live tx :=
    ⟨live_iff.mpr ⟨chan, hc, ha⟩, m', room, hr, hmember, b, tx', hp⟩
  have hquiet : ∀ {mu Q}, ¬ Tells s.casts p mu Q := by
    intro mu Q htells
    obtain ⟨cid, c, hcast, hm, -⟩ := htells
    rw [hsilent cid c hcast] at hm
    cases hm
  have hlog := (announces_ordered h p).last_sent hlive (fun mu => ⟨hquiet, hquiet⟩) hlast
  exact stored_last hi.params hs hlog

theorem silent_of_empty {s : Sys} (h : s.casts.len = 0) (p : String) : Silent s p := by
  intro cid c hc
  rw [HashMap.get_eq_none_of_len h] at hc
  cases hc

/-- A player, and two of its changes, a cooldown apart: the broadcast of the first one
waits as `0`, that of the second one as `1`. -/
def twoChanges : List Action :=
  [.createRoom "r" 1, .issueJoinTicket ⟨"m_r", "x"⟩ "1" "t" 1] ++
  soloJoin 0 ⟨1, 1⟩ "t" [{}, {}, {}, {}, {}] ++
  [.recv 1 ⟨1, 1⟩ (.reliable (.paramChange 0 .gravity .increase)), .param 1 {},
    .param 1 { nowUnix := 10 },
    .recv 2 ⟨1, 1⟩ (.reliable (.paramChange 1 .gravity .decrease)), .param 2 {},
    .param 2 { nowUnix := 17, fresh := 1 }]

/-- A broadcast to the one channel, from its collection to its end. -/
def castAlone (cid : Nat) : List Action := [.cast cid { txs := [0] }, .cast cid {}, .cast cid {}]

/-- The broadcasts of the two changes, in order. -/
theorem params_converge_two : ∃ s tr seat mu,
    server.Reach (fun s a => overtakes s a = false) s tr ∧ s.core.seat "m_r" "p_1" = some seat ∧
    (toldOn tr "p_1" 0).length = 2 ∧ (toldOn tr "p_1" 0).getLast? = some mu ∧
    mu = ⟨seat.params, seat.nextParamChangeAtUnix⟩ := by
  obtain ⟨s, tr, h, hp⟩ := reach_of_actions (fun s a => overtakes s a = false)
    (twoChanges ++ castAlone 0 ++ castAlone 1)
    (fun s tr => (s.core.seat "m_r" "p_1").isSome && s.casts.len == 0 && s.live 0 &&
      (toldOn tr "p_1" 0).length == 2)
    (by decide)
  simp only [Bool.and_eq_true, beq_iff_eq] at hp
  obtain ⟨⟨⟨hs, hcasts⟩, hl⟩, hlen⟩ := hp
  obtain ⟨seat, hs⟩ := Option.isSome_iff_exists.mp hs
  obtain ⟨chan, hc, ha⟩ := live_iff.mp hl
  have hne : toldOn tr "p_1" 0 ≠ [] := List.ne_nil_of_length_pos (by omega)
  refine ⟨s, tr, seat, _, h, hs, hlen, List.getLast?_eq_some_getLast hne, ?_⟩
  exact (params_converge h).2 "m_r" "p_1" seat hs (silent_of_empty hcasts _) 0 chan _ hc
    (.inr ⟨ha, List.getLast?_eq_some_getLast hne⟩)

/-- The broadcast of the second change overtakes that of the first one: when both are
done, every handler has finished and the queue ends with the first change. -/
theorem param_overtaken : ¬ ∀ s tr, server.Reach Machine.anyStep s tr →
    ToldInOrder tr ∧ (s.params.len = 0 → s.casts.len = 0 → ToldLatest s tr) := by
  intro hall
  obtain ⟨s, tr, h, hp⟩ := reach_of_actions Machine.anyStep
    (twoChanges ++ castAlone 1 ++ castAlone 0)
    (fun s _ => s.params.len == 0 && s.casts.len == 0 &&
      (s.core.seat "m_r" "p_1").any fun seat => (s.chans.get 0).any fun chan =>
        ((chan.queue.filterMap (·.mutationOf "p_1")).getLast?).any fun mu =>
          mu.nextParamChangeAtUnix != seat.nextParamChangeAtUnix)
    (by decide)
  simp only [Bool.and_eq_true, beq_iff_eq] at hp
  obtain ⟨⟨hparams, hcasts⟩, hp⟩ := hp
  obtain ⟨seat, hs, hp⟩ := (Option.any_eq_true _ _).mp hp
  obtain ⟨chan, hc, hp⟩ := (Option.any_eq_true _ _).mp hp
  obtain ⟨mu, hlast, hne⟩ := (Option.any_eq_true _ _).mp hp
  have heq := (hall s tr h).2 hparams hcasts "m_r" "p_1" seat hs (silent_of_empty hcasts _) 0
    chan mu hc (.inl hlast)
  rw [heq] at hne
  simp at hne

end Kotatsu
