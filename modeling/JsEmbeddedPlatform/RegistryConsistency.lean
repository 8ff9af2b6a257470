import JsEmbeddedPlatform.Shared.Runs
import JsEmbeddedPlatform.TimerRegistry

/-!
# The registries stay consistent

Callbacks are created, timers started on them, stopped or completed, in any order
and on either port. The two lists, the two kinds of record and the stash object
then always agree with each other.
-/

set_option autoImplicit false

namespace JsEmbeddedPlatform.Timers

open Registry IntrusiveList

variable {Fn : Type}

/-- Live timers and the callbacks they belong to point at each other. -/
structure Paired (r : Registry Fn) : Prop where
  linked : Linked r
  ofCallback : ∀ c d t, r.callback? c = some d → d.userData = some t →
    ∃ e, r.timer? t = some e ∧ e.callback = some c
  ofTimer : ∀ t e, r.timer? t = some e →
    ∃ c d, e.callback = some c ∧ r.callback? c = some d ∧ d.userData = some t

/-- `created` lists the functions of the callbacks created so far, in order. -/
structure Consistent (created : List Fn) (r : Registry Fn) : Prop extends Paired r where
  newest : r.ids.Pairwise fun a b => b.2 < a.2
  keys : ∀ k fn, r.stash k = some fn → ∃ c d, r.callback? c = some d ∧ d.id = k
  bound : ∀ c d, r.callback? c = some d →
    d.id < created.length ∧ r.stash d.id = created[d.id]?
  sequence : r.callbackSequenceId = created.length

section Ids
variable {r : Registry Fn}

theorem mem_ids_iff (c k : Nat) : (c, k) ∈ r.ids ↔ ∃ d, r.callback? c = some d ∧ d.id = k := by
  rw [ids, Heap.mem_view_iff]
  cases hc : r.callbacks.get? c with
  | none => simp [callback?, hc]
  | some cb => simp [callback?, hc, Callback.data]

theorem Consistent.distinct {created : List Fn} (h : Consistent created r) {c c' : Nat}
    {d d' : CallbackData} (hc : r.callback? c = some d) (hc' : r.callback? c' = some d')
    (hid : d.id = d'.id) : c = c' := by
  have hm := (mem_ids_iff c d.id).mpr ⟨d, hc, rfl⟩
  have hm' := (mem_ids_iff c' d'.id).mpr ⟨d', hc', rfl⟩
  have later : r.ids.Pairwise fun a b => a.2 = b.2 → a.1 = b.1 :=
    h.newest.imp fun hlt he => absurd he (Nat.ne_of_gt hlt)
  have earlier : r.ids.Pairwise fun a b => b.2 = a.2 → b.1 = a.1 :=
    h.newest.imp fun hlt he => absurd he (Nat.ne_of_lt hlt)
  exact later.forall_of_forall_of_flip (fun _ _ _ => rfl) earlier hm hm' hid

end Ids

section Create
variable {r : Registry Fn} {p : Nat} (fresh : p ∉ r.callbacks.live)

include fresh

theorem callback?_fresh : r.callback? p = none := by
  cases hd : r.callback? p with
  | none => rfl
  | some d => exact absurd (live_of_callback? hd) fresh

theorem callback?_kept (fn : Fn) {c : Nat} {d : CallbackData} (hc : r.callback? c = some d) :
    (afterCreate r p fn).callback? c = some d := by
  rw [callback?_afterCreate fresh, if_neg]
  · exact hc
  · rintro rfl
    rw [callback?_fresh fresh] at hc
    cases hc

theorem Paired.create (h : Paired r) (fn : Fn) : Paired (afterCreate r p fn) := by
  refine ⟨linked_afterCreate fresh fn h.linked, ?_, ?_⟩
  · intro c d t hc ht
    rw [callback?_afterCreate fresh] at hc
    split at hc
    · cases hc
      cases ht
    · exact h.ofCallback c d t hc ht
  · intro t e ht
    obtain ⟨c, d, hec, hc, hd⟩ := h.ofTimer t e ht
    exact ⟨c, d, hec, callback?_kept fresh fn hc, hd⟩

theorem Consistent.create {created : List Fn} (h : Consistent created r) (fn : Fn)
    (few : (created ++ [fn]).length < 2 ^ 53) :
    Consistent (created ++ [fn]) (afterCreate r p fn) := by
  have hlen : created.length + 1 < 2 ^ 53 := by simpa using few
  have hkey : uint64ToDouble r.callbackSequenceId = created.length := by
    rw [h.sequence]
    exact uint64ToDouble_small (by omega)
  have hstash : (afterCreate r p fn).stash = Function.update r.stash created.length (some fn) := by
    rw [← hkey]
    rfl
  refine ⟨h.toPaired.create fresh fn, ?_, ?_, ?_, ?_⟩
  · rw [ids_afterCreate fresh, List.pairwise_cons]
    refine ⟨?_, h.newest⟩
    intro b hb
    obtain ⟨d, hd, hk⟩ := (mem_ids_iff b.1 b.2).mp hb
    have := (h.bound b.1 d hd).1
    rw [h.sequence]
    omega
  · intro k f hk
    rw [hstash] at hk
    by_cases hkey' : k = created.length
    · refine ⟨p, _, (callback?_afterCreate fresh fn p).trans (if_pos rfl), ?_⟩
      rw [hkey', h.sequence]
    · rw [Function.update_of_ne hkey'] at hk
      obtain ⟨c, d, hc, hd⟩ := h.keys k f hk
      exact ⟨c, d, callback?_kept fresh fn hc, hd⟩
  · intro c d hc
    rw [callback?_afterCreate fresh] at hc
    rw [hstash]
    split at hc
    · cases hc
      simp [h.sequence]
    · obtain ⟨hlt, hb⟩ := h.bound c d hc
      refine ⟨by simp; omega, ?_⟩
      rw [Function.update_of_ne (by omega), hb, List.getElem?_append_left hlt]
  · change (r.callbackSequenceId + 1) % 2 ^ 64 = _
    rw [h.sequence, List.length_append, List.length_singleton]
    omega

end Create

section Start
variable {r r' : Registry Fn} {c : Nat} {d : CallbackData} {port : Port} {o : StartOutcome}
variable {timeout : Int} {repeats : Bool}

theorem StartOutcome.item_of_linked {t : Nat} (h : o.linked port = some t) : o.item = some t := by
  cases port with
  | unix => exact h
  | stm32 =>
    change (if o.timer = none then none else o.item) = some t at h
    split at h
    · simp at h
    · exact h

theorem timer?_unlinked (fresh : o.Fresh r) {t : Nat} (h : o.linked port = some t) :
    r.timer? t = none := by
  cases hd : r.timer? t with
  | none => rfl
  | some e => exact absurd (live_of_timer? hd) (fresh.item t (StartOutcome.item_of_linked h))

theorem timer?_kept (fresh : o.Fresh r) (eff : StartEffect port o c timeout repeats d r r')
    {t : Nat} {e : TimerData} (ht : r.timer? t = some e) : r'.timer? t = some e := by
  rw [eff.timer, if_neg]
  · exact ht
  · intro hl
    rw [timer?_unlinked fresh hl] at ht
    cases ht

theorem Paired.started (h : Paired r) (hc : r.callback? c = some d) (free : d.userData = none)
    (fresh : o.Fresh r) (eff : StartEffect port o c timeout repeats d r r') : Paired r' := by
  refine ⟨eff.linked, ?_, ?_⟩
  · intro q x t hq ht
    rw [eff.callback] at hq
    split at hq
    · next e =>
      cases hq
      rw [free, Option.or_none] at ht
      exact ⟨_, by rw [eff.timer, if_pos ht], by rw [e]⟩
    · obtain ⟨e, he, hec⟩ := h.ofCallback q x t hq ht
      exact ⟨e, timer?_kept fresh eff he, hec⟩
  · intro t e ht
    rw [eff.timer] at ht
    split at ht
    · next hl =>
      cases ht
      exact ⟨c, _, rfl, by rw [eff.callback, if_pos rfl], by rw [hl]; rfl⟩
    · obtain ⟨q, x, heq, hq, hx⟩ := h.ofTimer t e ht
      refine ⟨q, x, heq, ?_, hx⟩
      rw [eff.callback, if_neg]
      · exact hq
      · rintro rfl
        rw [hc] at hq
        cases hq
        rw [free] at hx
        cases hx

theorem Consistent.started {created : List Fn} (h : Consistent created r)
    (hc : r.callback? c = some d) (free : d.userData = none) (fresh : o.Fresh r)
    (eff : StartEffect port o c timeout repeats d r r') : Consistent created r' := by
  refine ⟨h.toPaired.started hc free fresh eff, by rw [eff.ids]; exact h.newest, ?_, ?_, ?_⟩
  · intro k f hk
    rw [eff.stash] at hk
    obtain ⟨q, x, hq, hx⟩ := h.keys k f hk
    by_cases hqc : q = c
    · subst hqc
      rw [hc] at hq
      cases hq
      exact ⟨q, _, (eff.callback q).trans (if_pos rfl), hx⟩
    · exact ⟨q, x, by rw [eff.callback, if_neg hqc, hq], hx⟩
  · intro q x hq
    rw [eff.callback] at hq
    rw [eff.stash]
    split at hq
    · next e =>
      cases hq
      exact h.bound c d hc
    · exact h.bound q x hq
  · rw [eff.sequence]
    exact h.sequence

end Start

section Cleanup
variable {r r' : Registry Fn} {t c : Nat} {d : CallbackData} {e : TimerData}

theorem CleanupEffect.callback_of (eff : CleanupEffect r r' t c d e) {q : Nat} {x : CallbackData}
    (hq : r'.callback? q = some x) : q ≠ c ∧ r.callback? q = some x := by
  rw [eff.callback] at hq
  split at hq
  · cases hq
  · next hne => exact ⟨hne, hq⟩

theorem CleanupEffect.timer_of (eff : CleanupEffect r r' t c d e) {s : Nat} {x : TimerData}
    (hs : r'.timer? s = some x) : s ≠ t ∧ r.timer? s = some x := by
  rw [eff.timer] at hs
  split at hs
  · cases hs
  · next hne => exact ⟨hne, hs⟩

theorem Paired.cleaned (h : Paired r) (ht : r.timer? t = some e) (hec : e.callback = some c)
    (hc : r.callback? c = some d) (hdt : d.userData = some t)
    (eff : CleanupEffect r r' t c d e) : Paired r' := by
  refine ⟨eff.linked, ?_, ?_⟩
  · intro q x s hq hs
    obtain ⟨hne, hq⟩ := eff.callback_of hq
    obtain ⟨e', he', hq'⟩ := h.ofCallback q x s hq hs
    refine ⟨e', ?_, hq'⟩
    rw [eff.timer, if_neg]
    · exact he'
    · rintro rfl
      rw [ht] at he'
      cases he'
      rw [hec] at hq'
      exact hne (Option.some.inj hq').symm
  · intro s e' hs
    obtain ⟨hne, hs⟩ := eff.timer_of hs
    obtain ⟨q, x, heq, hq, hx⟩ := h.ofTimer s e' hs
    refine ⟨q, x, heq, ?_, hx⟩
    rw [eff.callback, if_neg]
    · exact hq
    · rintro rfl
      rw [hc] at hq
      cases hq
      rw [hdt] at hx
      exact hne (Option.some.inj hx).symm

theorem Consistent.cleaned {created : List Fn} (h : Consistent created r)
    (few : created.length < 2 ^ 53) (ht : r.timer? t = some e) (hec : e.callback = some c)
    (hc : r.callback? c = some d) (hdt : d.userData = some t)
    (eff : CleanupEffect r r' t c d e) : Consistent created r' := by
  have hkey : uint64ToDouble d.id = d.id :=
    uint64ToDouble_small (Nat.lt_trans (h.bound c d hc).1 few)
  refine ⟨h.toPaired.cleaned ht hec hc hdt eff, by rw [eff.ids]; exact h.newest.filter _,
    ?_, ?_, ?_⟩
  · intro k f hk
    rw [eff.stash, hkey] at hk
    by_cases hkd : k = d.id
    · rw [hkd, Function.update_self] at hk
      cases hk
    · rw [Function.update_of_ne hkd] at hk
      obtain ⟨q, x, hq, hx⟩ := h.keys k f hk
      refine ⟨q, x, ?_, hx⟩
      rw [eff.callback, if_neg]
      · exact hq
      · rintro rfl
        rw [hc] at hq
        cases hq
        exact hkd hx.symm
  · intro q x hq
    obtain ⟨hne, hq⟩ := eff.callback_of hq
    have hid : x.id ≠ d.id := fun e => hne (h.distinct hq hc e)
    rw [eff.stash, hkey, Function.update_of_ne hid]
    exact h.bound q x hq
  · rw [eff.sequence]
    exact h.sequence

end Cleanup

/-! ## Runs of the registry operations -/

/-- One operation with what it is granted. A completion gets a copy of the record, whose
`user_data` points at the timer. -/
inductive RegistryOp (Fn : Type) where
  | create (fn : Fn) (block : Nat)
  | start (o : StartOutcome) (callback : Nat) (timeout : Int) (repeats : Bool)
  | stop (callback : Nat)
  | complete (copy : Callback)

def Registry.initial : Registry Fn where
  callbackSequenceId := 0
  callbackListFirst := none
  callbacks := Heap.empty
  stash _ := none
  timerFirst := none
  timerLast := none
  timers := Heap.empty
  platformTimers := Heap.empty

/-- New records get unused blocks, a timer is started on a callback that has none and with
success, a stop gets the handle of a live timer, a completion belongs to a live one-shot. -/
def RegistryOp.Possible (port : Port) (r : Registry Fn) : RegistryOp Fn → Prop
  | .create _ block => block ∉ r.callbacks.live
  | .start o callback _ _ =>
    (r.callback? callback).map CallbackData.userData = some none ∧ o.succeeds port ∧
      (∀ i ∈ o.item, i ∉ r.timers.live) ∧ ∀ p ∈ o.timer, p ∉ r.platformTimers.live
  | .stop callback => ((r.callback? callback).bind CallbackData.userData).isSome
  | .complete copy =>
    ((copy.userData.bind r.timer?).map TimerData.repeats) = some false

instance (port : Port) (r : Registry Fn) (op : RegistryOp Fn) : Decidable (op.Possible port r) :=
  match op with
  | .create _ _ => inferInstanceAs (Decidable (_ ∉ _))
  | .start _ _ _ _ => inferInstanceAs (Decidable (_ ∧ _ ∧ _ ∧ _))
  | .stop _ => inferInstanceAs (Decidable (_ = true))
  | .complete _ => inferInstanceAs (Decidable (_ = _))

def perform (port : Port) (r : Registry Fn) : RegistryOp Fn → Except Fault (Registry Fn)
  | .create fn block => Prod.snd <$> eventloopCallbackCreateFromContext fn (some block) r
  | .start o callback timeout repeats =>
    Prod.snd <$> eventloopPlatformTimerStart port o (some callback) timeout repeats r
  | .stop callback => Prod.snd <$> eventloopPlatformTimerStop port ⟨true, true⟩ (some callback) r
  | .complete copy => timerCallbackCompletion port ⟨true, true⟩ copy r

def registryStep (port : Port) (r : Registry Fn) (op : RegistryOp Fn) :
    Option (Registry Fn × Option Fault) :=
  if op.Possible port r then
    match perform port r op with
    | .ok r' => some (r', none)
    | .error f => some (r, some f)
  else none

/-- The functions of the callbacks a history created. -/
def created (ops : List (RegistryOp Fn)) : List Fn :=
  ops.filterMap fun
    | .create fn _ => some fn
    | _ => none

theorem initial_consistent : Consistent ([] : List Fn) Registry.initial :=
  ⟨⟨⟨⟨none, Represents.empty⟩, Represents.empty⟩, nofun, nofun⟩, List.Pairwise.nil, nofun, nofun,
    rfl⟩

theorem perform_keeps {port : Port} {done : List Fn} {r : Registry Fn} {op : RegistryOp Fn}
    (h : Consistent done r) (few : (done ++ created [op]).length < 2 ^ 53)
    (possible : op.Possible port r) :
    ∃ r', perform port r op = .ok r' ∧ Consistent (done ++ created [op]) r' := by
  cases op with
  | create fn block =>
    refine ⟨afterCreate r block fn, ?_, h.create possible fn few⟩
    simp only [perform, create_eq h.linked possible]
    rfl
  | start o callback timeout repeats =>
    obtain ⟨hfree, _, hitem, htimer⟩ := possible
    obtain ⟨d, hc, hd⟩ := Option.map_eq_some_iff.mp hfree
    have fresh : o.Fresh r := ⟨hitem, htimer⟩
    obtain ⟨ret, r', hr, _, eff⟩ := start_spec h.linked hc fresh port timeout repeats
    refine ⟨r', ?_, ?_⟩
    · simp only [perform, hr]
      rfl
    · have nothing : created [RegistryOp.start o callback timeout repeats] = ([] : List Fn) := rfl
      rw [nothing, List.append_nil]
      exact h.started hc hd fresh eff
  | stop callback =>
    obtain ⟨t, hbind⟩ := Option.isSome_iff_exists.mp possible
    obtain ⟨d, hc, hdt⟩ := Option.bind_eq_some_iff.mp hbind
    obtain ⟨e, ht, hec⟩ := h.ofCallback callback d t hc hdt
    have few' : done.length < 2 ^ 53 := by simpa [created] using few
    rcases stop_spec h.linked ht hec hc hdt port ⟨true, true⟩ with ⟨_, ⟨hf, _⟩ | ⟨_, hf, _⟩⟩ | h'
    · cases hf
    · cases hf
    · obtain ⟨_, r', hr, eff⟩ := h'
      refine ⟨r', ?_, ?_⟩
      · simp only [perform, hr]
        rfl
      · have nothing : created [RegistryOp.stop callback] = ([] : List Fn) := rfl
        rw [nothing, List.append_nil]
        exact h.cleaned few' ht hec hc hdt eff
  | complete copy =>
    obtain ⟨e, hbind, hrep⟩ := Option.map_eq_some_iff.mp possible
    obtain ⟨t, hcopy, ht⟩ := Option.bind_eq_some_iff.mp hbind
    obtain ⟨c, d, hec, hc, hdt⟩ := h.ofTimer t e ht
    have few' : done.length < 2 ^ 53 := by simpa [created] using few
    rcases completion_spec h.linked ht hec hc port ⟨true, true⟩ hcopy with ⟨hf, _⟩ | h'
    · rcases hf with hf | ⟨_, hf⟩
      · rw [hrep] at hf
        cases hf
      · cases hf
    · obtain ⟨_, _, r', hr, eff⟩ := h'
      refine ⟨r', hr, ?_⟩
      have nothing : created [RegistryOp.complete copy] = ([] : List Fn) := rfl
      rw [nothing, List.append_nil]
      exact h.cleaned few' ht hec hc hdt eff

theorem registryStep_keeps {port : Port} {past : List (RegistryOp Fn)} {r r' : Registry Fn}
    {op : RegistryOp Fn} {fault : Option Fault} (few : (created (past ++ [op])).length < 2 ^ 53)
    (h : Consistent (created past) r) (step : registryStep port r op = some (r', fault)) :
    fault = none ∧ Consistent (created (past ++ [op])) r' := by
  have split : created (past ++ [op]) = created past ++ created [op] := List.filterMap_append
  rw [split] at few ⊢
  unfold registryStep at step
  split at step
  · next possible =>
    obtain ⟨k, hk, keeps⟩ := perform_keeps h few possible
    rw [hk] at step
    cases step
    exact ⟨rfl, keeps⟩
  · cases step

/-- Fewer than `2^53` creations: no operation meets a released or null pointer, and the
registries are consistent in every state reached. -/
theorem registries_consistent (port : Port) (ops : List (RegistryOp Fn)) {r : Registry Fn}
    {faults : List (Option Fault)}
    (h : Runs.run (registryStep port) Registry.initial ops = some (r, faults))
    (few : (created ops).length < 2 ^ 53) :
    (∀ f ∈ faults, f = none) ∧ Consistent (created ops) r := by
  have whole := Runs.run_history
    (P := fun past seen r => (created past).length < 2 ^ 53 →
      (∀ f ∈ seen, f = none) ∧ Consistent (created past) r) ?_
    (fun _ => ⟨nofun, initial_consistent⟩) h
  · exact whole few
  · intro past seen r op r' fault ih step few
    have fewer : (created past).length < 2 ^ 53 := by
      have : created (past ++ [op]) = created past ++ created [op] := List.filterMap_append
      rw [this, List.length_append] at few
      omega
    obtain ⟨quiet, consistent⟩ := ih fewer
    obtain ⟨hf, keeps⟩ := registryStep_keeps few consistent step
    refine ⟨?_, keeps⟩
    intro f hm
    rcases List.mem_append.mp hm with hm | hm
    · exact quiet f hm
    · rw [List.mem_singleton.mp hm, hf]

/-- Two callbacks, an interval and a timeout, the interval stopped, the timeout completed. -/
theorem registries_consistent_unix : ∃ (r : Registry String) (faults : List (Option Fault)),
    (∀ f ∈ faults, f = none) ∧ Consistent ["a", "b"] r ∧ r.callbacks.live = [] := by
  let ops : List (RegistryOp String) :=
    [.create "a" 16, .start ⟨some 8, some 1, true⟩ 16 250 true, .create "b" 32,
      .start ⟨some 24, some 2, true⟩ 32 100 false, .stop 16,
      .complete ⟨1, none, none, none, some .timerCallbackCompletion, some 24⟩]
  have whole := registries_consistent .unix ops rfl (by decide)
  exact ⟨_, _, whole.1, whole.2, rfl⟩

end JsEmbeddedPlatform.Timers
