import JsEmbeddedPlatform.TimerLifetime

/-!
# Which functions the loop invokes

Events in the queue outlive their registration. An id is never given out twice in
one heap generation, and a clear takes the function out of the stash before any
later dispatch; so a queued copy selects its own function or none.
-/

set_option autoImplicit false

namespace JsEmbeddedPlatform.Timers

open Registry

variable {Fn : Type}

namespace Event

def returnedId : Event Fn → Option Nat
  | .registered _ id _ _ => some id
  | _ => none

def invokedId : Event Fn → Option Nat
  | .invoked id _ => some id
  | _ => none

end Event

/-- The id of the callback a timer belongs to. -/
def Registry.timerId (r : Registry Fn) (t : Nat) : Option Nat :=
  (r.timer? t).bind fun e => e.callback.bind fun c => (r.callback? c).map CallbackData.id

/-- Ids invoked so far, queued, or held by a sender. -/
def flights (seen : List (Event Fn)) (l : Loop Fn) : List Nat :=
  seen.filterMap Event.invokedId ++ (l.queue.map Callback.id ++
    l.blocked.filterMap fun s => l.registry.timerId s.item)

/-- Some platform timer will still expire for this id. -/
def Expiring (r : Registry Fn) (repeats : Bool) (k : Nat) : Prop :=
  ∃ p pt t, r.platformTimers.get? p = some pt ∧ pt.active = true ∧ pt.repeats = repeats ∧
    pt.item = some t ∧ r.timerId t = some k

namespace Loop

/-- `xTimerStop` and `xTimerDelete` take the commands of a clear, a timer is cleared or completed
while nothing waits for room with one of its events, none expires between its stop and the timer
task's answer to it, and JavaScript puts no numeric property on a prototype. -/
def Accepted (port : Port) (l : Loop Fn) : Action Fn → Prop
  | .clear handle o => (port = .stm32 → o.stopped = true ∧ o.deleted = true) ∧
      ∀ d ∈ l.registry.callback? handle, ∀ t ∈ d.userData, ∀ s ∈ l.blocked, s.item ≠ t
  | .inherit _ value => value = none
  | .expireLate _ => False
  | .complete _ => ∀ copy ∈ l.phase.copy?, ∀ t ∈ copy.oneShotTimer, ∀ s ∈ l.blocked, s.item ≠ t
  | _ => True

instance (port : Port) (l : Loop Fn) (action : Action Fn) :
    Decidable (l.Accepted port action) :=
  match action with
  | .clear handle _ => inferInstanceAs (Decidable (_ ∧ ∀ d ∈ l.registry.callback? handle, _))
  | .inherit _ value => inferInstanceAs (Decidable (value = none))
  | .expireLate _ => isFalse id
  | .complete _ => inferInstanceAs (Decidable (∀ copy ∈ l.phase.copy?, _))
  | .set _ _ | .expire _ | .drain | .resume _ | .scriptEnds | .receive
  | .callbackReturns => isTrue trivial

end Loop

/-- The dispatch at the end of `before` is for a function that got this id and whose handle
was not cleared since. -/
def Justified (before : List (Event Fn)) (id : Nat) (fn : Fn) : Prop :=
  ∃ a handle repeats b, before = a ++ .registered handle id fn repeats :: b ∧ .cleared handle ∉ b

/-- What holds of the events so far and the loop; `created` are the functions of the
callbacks created so far. -/
structure Traced (created : List Fn) (seen : List (Event Fn)) (l : Loop Fn) : Prop where
  consistent : Consistent created l.registry
  wired : Wired l.registry
  attached : ∀ s ∈ l.blocked, Attached l.registry s
  inherited : ∀ k, l.inherited k = none
  functions : ∀ h k fn rep, .registered h k fn rep ∈ seen → created[k]? = some fn
  returned : (seen.filterMap Event.returnedId).Nodup
  handles : ∀ c d h fn rep, l.registry.callback? c = some d → .registered h d.id fn rep ∈ seen →
    c = h ∧ d.userData ≠ none
  cleared : ∀ a b h k fn rep, seen = a ++ .registered h k fn rep :: b → .cleared h ∈ b →
    ∀ c d, l.registry.callback? c = some d → d.id ≠ k
  expiring : ∀ rep k, Expiring l.registry rep k → ∃ h fn, .registered h k fn rep ∈ seen
  known : ∀ k ∈ flights seen l, ∃ h fn rep, .registered h k fn rep ∈ seen
  once : ∀ h k fn, .registered h k fn false ∈ seen → (flights seen l).count k ≤ 1 ∧
    (Expiring l.registry false k → (flights seen l).count k = 0)
  justified : ∀ before id fn after, seen = before ++ .invoked id fn :: after →
    Justified before id fn

theorem initial_traced : Traced [] [] (Loop.initial : Loop Fn) where
  consistent := initial_consistent
  wired := initial_wired
  attached := nofun
  inherited _ := rfl
  functions := nofun
  returned := List.nodup_nil
  handles := nofun
  cleared := by
    intro a b h k fn rep hsplit
    simp at hsplit
  expiring := by
    rintro rep k ⟨p, pt, t, hp, _⟩
    cases hp
  known := nofun
  once := nofun
  justified := by
    intro before id fn after hsplit
    simp at hsplit

section Lists
variable {α β : Type}

theorem eq_of_nodup_filterMap {f : α → Option β} {l : List α} (h : (l.filterMap f).Nodup)
    {x y : α} {k : β} (hx : x ∈ l) (hy : y ∈ l) (fx : f x = some k) (fy : f y = some k) :
    x = y := by
  induction l with
  | nil => cases hx
  | cons a l ih =>
    have later : ∀ z ∈ l, f z = some k → f a ≠ some k := by
      intro z hz fz fa
      rw [List.filterMap_cons_some fa] at h
      exact (List.nodup_cons.mp h).1 (List.mem_filterMap.mpr ⟨z, hz, fz⟩)
    have rest : (l.filterMap f).Nodup := h.sublist ((List.sublist_cons_self a l).filterMap f)
    rcases List.mem_cons.mp hx with hxa | hxl
    · rcases List.mem_cons.mp hy with hya | hyl
      · exact hxa.trans hya.symm
      · exact absurd (hxa ▸ fx) (later y hyl fy)
    · rcases List.mem_cons.mp hy with hya | hyl
      · exact absurd (hya ▸ fy) (later x hxl fx)
      · exact ih rest hxl hyl

/-- Where the last element of a list lies when the list is cut at some element. -/
theorem concat_eq_append_cons {l a b : List α} {x y : α} (h : l ++ [x] = a ++ y :: b) :
    (b = [] ∧ l = a ∧ x = y) ∨ ∃ b', b = b' ++ [x] ∧ l = a ++ y :: b' := by
  rcases List.eq_nil_or_concat b with rfl | ⟨b', z, rfl⟩
  · left
    obtain ⟨h1, h2⟩ := List.append_inj' h rfl
    exact ⟨rfl, h1, List.head_eq_of_cons_eq h2⟩
  · right
    have shape : a ++ y :: b'.concat z = (a ++ y :: b') ++ [z] := by simp
    rw [shape] at h
    obtain ⟨h1, h2⟩ := List.append_inj' h rfl
    exact ⟨b', by rw [List.concat_eq_append, List.head_eq_of_cons_eq h2], h1⟩

end Lists

section Registry
variable {r r' : Registry Fn}

theorem timerId_iff (t k : Nat) : r.timerId t = some k ↔
    ∃ e c d, r.timer? t = some e ∧ e.callback = some c ∧ r.callback? c = some d ∧ d.id = k := by
  simp only [timerId, Option.bind_eq_some_iff, Option.map_eq_some_iff]
  constructor
  · rintro ⟨e, he, c, hc, d, hd, hk⟩
    exact ⟨e, c, d, he, hc, hd, hk⟩
  · rintro ⟨e, c, d, he, hc, hd, hk⟩
    exact ⟨e, he, c, hc, d, hd, hk⟩

/-- Distinct timers have distinct ids. -/
theorem timerId_injective {created : List Fn} (h : Consistent created r) {t t' k : Nat}
    (ht : r.timerId t = some k) (ht' : r.timerId t' = some k) : t = t' := by
  obtain ⟨e, c, d, he, hec, hd, hk⟩ := (timerId_iff t k).mp ht
  obtain ⟨e', c', d', he', hec', hd', hk'⟩ := (timerId_iff t' k).mp ht'
  have hcc : c = c' := h.distinct hd hd' (hk.trans hk'.symm)
  subst hcc
  rw [hd] at hd'
  cases hd'
  obtain ⟨q, x, hq, hx, hxt⟩ := h.ofTimer t e he
  obtain ⟨q', x', hq', hx', hxt'⟩ := h.ofTimer t' e' he'
  rw [hec] at hq
  rw [hec'] at hq'
  cases hq
  cases hq'
  rw [hx] at hx'
  cases hx'
  rw [hxt] at hxt'
  exact Option.some.inj hxt'

end Registry

section Steps
variable {created : List Fn} {seen : List (Event Fn)} {l l' : Loop Fn}

/-- A change that only takes away. -/
theorem Traced.shrink (h : Traced created seen l) (consistent : Consistent created l'.registry)
    (wired : Wired l'.registry) (attached : ∀ s ∈ l'.blocked, Attached l'.registry s)
    (inherited : ∀ k, l'.inherited k = none)
    (callback : ∀ c d, l'.registry.callback? c = some d → l.registry.callback? c = some d)
    (expiring : ∀ rep k, Expiring l'.registry rep k → Expiring l.registry rep k)
    (sub : (flights seen l').Sublist (flights seen l)) : Traced created seen l' := by
  refine ⟨consistent, wired, attached, inherited, h.functions, h.returned, ?_, ?_, ?_, ?_, ?_,
    h.justified⟩
  · intro c d hd fn rep hc hm
    exact h.handles c d hd fn rep (callback c d hc) hm
  · intro a b hd k fn rep hsplit hcl c d hc
    exact h.cleared a b hd k fn rep hsplit hcl c d (callback c d hc)
  · intro rep k hk
    exact h.expiring rep k (expiring rep k hk)
  · intro k hk
    exact h.known k (sub.subset hk)
  · intro hd k fn hm
    obtain ⟨hle, hzero⟩ := h.once hd k fn hm
    have hcount := sub.count_le k
    refine ⟨Nat.le_trans hcount hle, ?_⟩
    intro hk
    have := hzero (expiring false k hk)
    omega

/-- An event that registers and invokes nothing. -/
theorem Traced.plain (h : Traced created seen l) {event : Event Fn}
    (plain : event.returnedId = none) (silent : event.invokedId = none)
    (clear : ∀ handle, event = .cleared handle → ∀ c d, l.registry.callback? c = some d →
      ∀ fn rep, .registered handle d.id fn rep ∉ seen) : Traced created (seen ++ [event]) l := by
  have member : ∀ {h k : Nat} {fn : Fn} {rep : Bool},
      .registered h k fn rep ∈ seen ++ [event] → .registered h k fn rep ∈ seen := by
    intro h k fn rep hm
    rcases List.mem_append.mp hm with hm | hm
    · exact hm
    · rw [← List.mem_singleton.mp hm] at plain
      cases plain
  have same : flights (seen ++ [event]) l = flights seen l := by
    simp only [flights, List.filterMap_append, List.filterMap_cons_none silent, List.filterMap_nil,
      List.append_nil]
  refine ⟨h.consistent, h.wired, h.attached, h.inherited, ?_, ?_, ?_, ?_, ?_, ?_, ?_, ?_⟩
  · intro hd k fn rep hm
    exact h.functions hd k fn rep (member hm)
  · simpa only [List.filterMap_append, List.filterMap_cons_none plain, List.filterMap_nil,
      List.append_nil] using h.returned
  · intro c d hd fn rep hc hm
    exact h.handles c d hd fn rep hc (member hm)
  · intro a b hd k fn rep hsplit hcl c d hc
    rcases concat_eq_append_cons hsplit with ⟨rfl, _⟩ | ⟨b', rfl, hold⟩
    · cases hcl
    · rcases List.mem_append.mp hcl with hcl | hcl
      · exact h.cleared a b' hd k fn rep hold hcl c d hc
      · rintro rfl
        apply clear hd (List.mem_singleton.mp hcl).symm c d hc fn rep
        rw [hold]
        simp
  · intro rep k hk
    obtain ⟨hd, fn, hm⟩ := h.expiring rep k hk
    exact ⟨hd, fn, List.mem_append_left _ hm⟩
  · intro k hk
    rw [same] at hk
    obtain ⟨hd, fn, rep, hm⟩ := h.known k hk
    exact ⟨hd, fn, rep, List.mem_append_left _ hm⟩
  · intro hd k fn hm
    rw [same]
    exact h.once hd k fn (member hm)
  · intro before id fn after hsplit
    rcases concat_eq_append_cons hsplit with ⟨_, _, rfl⟩ | ⟨after', _, hold⟩
    · cases silent
    · exact h.justified before id fn after' hold

/-- The loop thread moves, or the program ends. -/
theorem Traced.move (h : Traced created seen l) (phase : Phase) {event : Event Fn}
    (hev : event = .quiet ∨ ∃ f, event = .fault f) :
    Traced created (seen ++ [event]) { l with phase := phase } := by
  have moved : Traced created seen { l with phase := phase } :=
    h.shrink h.consistent h.wired h.attached h.inherited (fun _ _ hc => hc) (fun _ _ hk => hk)
      (List.Sublist.refl _)
  rcases hev with rfl | ⟨f, rfl⟩
  · exact moved.plain rfl rfl nofun
  · exact moved.plain rfl rfl nofun

theorem filterMap_sublist {α β : Type} {f g : α → Option β} {xs : List α}
    (hfg : ∀ x ∈ xs, ∀ b, f x = some b → g x = some b) :
    (xs.filterMap f).Sublist (xs.filterMap g) := by
  induction xs with
  | nil => exact List.Sublist.refl _
  | cons x xs ih =>
    have rest := ih fun y hy => hfg y (List.mem_cons_of_mem x hy)
    cases hf : f x with
    | none =>
      rw [List.filterMap_cons_none hf]
      exact rest.trans ((List.sublist_cons_self x xs).filterMap g)
    | some b =>
      rw [List.filterMap_cons_some hf, List.filterMap_cons_some (hfg x List.mem_cons_self b hf)]
      exact rest.cons_cons b

/-- A native call that released at most one timer, and none with an event waiting for room. -/
theorem Traced.settle (h : Traced created seen l) (port : Port) {r : Registry Fn}
    (consistent : Consistent created r) (wired : Wired r)
    (callback : ∀ c d, r.callback? c = some d → l.registry.callback? c = some d)
    (timer : ∀ t e, r.timer? t = some e → l.registry.timer? t = some e)
    (platform : ∀ p pt, r.platformTimers.get? p = some pt →
      l.registry.platformTimers.get? p = some pt)
    (attached : ∀ s ∈ l.blocked, Attached l.registry s → Attached r s) :
    Traced created seen (l.settle port r) := by
  have ids : ∀ t k, r.timerId t = some k → l.registry.timerId t = some k := by
    intro t k ht
    obtain ⟨e, c, d, he, hec, hd, hk⟩ := (timerId_iff t k).mp ht
    exact (timerId_iff t k).mpr ⟨e, c, d, timer t e he, hec, callback c d hd, hk⟩
  have blocked := settle_blocked port l r
  have same : (l.settle port r).queue = l.queue := by cases port <;> rfl
  refine h.shrink ?_ ?_ ?_ ?_ ?_ ?_ ?_
  · rw [settle_registry]
    exact consistent
  · rw [settle_registry]
    exact wired
  · intro s hs
    rw [settle_registry]
    exact attached s (blocked.subset hs) (h.attached s (blocked.subset hs))
  · cases port <;> exact h.inherited
  · rw [settle_registry]
    exact callback
  · rw [settle_registry]
    rintro rep k ⟨p, pt, t, hp, hact, hrep, hitem, ht⟩
    exact ⟨p, pt, t, platform p pt hp, hact, hrep, hitem, ids t k ht⟩
  · simp only [flights, same, settle_registry]
    apply List.Sublist.append_left
    apply List.Sublist.append_left
    exact (filterMap_sublist fun s _ k hk => ids s.item k hk).trans (blocked.filterMap _)

theorem Traced.settleKept (h : Traced created seen l) (port : Port) :
    Traced created seen (l.settle port l.registry) :=
  h.settle port h.consistent h.wired (fun _ _ hc => hc) (fun _ _ ht => ht) (fun _ _ hp => hp)
    fun _ _ ha => ha

theorem Traced.settleCleaned (h : Traced created seen l) (few : created.length < 2 ^ 53)
    (port : Port) {r : Registry Fn} {t c : Nat} {d : CallbackData} {e : TimerData}
    (ht : l.registry.timer? t = some e) (hec : e.callback = some c)
    (hc : l.registry.callback? c = some d) (hdt : d.userData = some t)
    (eff : CleanupEffect l.registry r t c d e) (waiting : ∀ s ∈ l.blocked, s.item ≠ t) :
    Traced created seen (l.settle port r) := by
  apply h.settle port (h.consistent.cleaned few ht hec hc hdt eff)
    (h.wired.cleaned ht hec hc hdt eff)
  · intro q x hq
    exact (eff.callback_of hq).2
  · intro s x hs
    exact (eff.timer_of hs).2
  · intro p pt hp
    rw [eff.platform] at hp
    split at hp
    · cases hp
    · exact hp
  · intro s hs ha
    apply ha.keep
    intro x hx
    rw [eff.timer, if_neg (waiting s hs)]
    exact hx

theorem Traced.clear (h : Traced created seen l) (few : created.length < 2 ^ 53) {port : Port}
    {handle : Nat} {o : StopOutcome} (can : l.Accepted port (.clear handle o : Action Fn)) :
    Traced created (seen ++ [(l.clear port handle o).2]) (l.clear port handle o).1 := by
  obtain ⟨accepted, waiting⟩ := can
  rcases clear_spec h.wired.toPaired port o handle with ⟨_, hr⟩ | ⟨d, r, hd, hr, eff⟩
  · simp only [Loop.clear, hr]
    exact h.move .crashed (Or.inr ⟨_, rfl⟩)
  · simp only [Loop.clear, hr]
    cases eff with
    | idle free =>
      apply (h.settleKept port).plain rfl rfl
      intro q hq c x hx fn rep hm
      cases hq
      rw [settle_registry] at hx
      -- a callback without a timer never got its handle out
      obtain ⟨rfl, hne⟩ := h.handles c x handle fn rep hx hm
      rw [hd] at hx
      cases hx
      exact hne free
    | refused hp refused =>
      rw [(accepted hp).1] at refused
      cases refused
    | stopped hp kept =>
      rw [(accepted hp).2] at kept
      cases kept
    | cleaned hdt ht hec eff =>
      apply (h.settleCleaned few port ht hec hd hdt eff (waiting d hd _ hdt)).plain rfl rfl
      intro q hq c x hx fn rep hm
      cases hq
      rw [settle_registry] at hx
      obtain ⟨hne, hx⟩ := eff.callback_of hx
      exact hne (h.handles c x handle fn rep hx hm).1

theorem Traced.complete (h : Traced created seen l) (few : created.length < 2 ^ 53) {port : Port}
    {o : StopOutcome} {copy : Callback} (completing : l.phase = .completing copy)
    (can : l.Accepted port (.complete o : Action Fn)) :
    Traced created (seen ++ [(l.complete port o copy).2]) (l.complete port o copy).1 := by
  unfold Loop.complete
  cases hhandler : copy.completionHandler with
  | none => exact h.move .waiting (Or.inl rfl)
  | some handler =>
    cases handler
    rcases complete_spec h.wired.toPaired port o copy with ⟨t, _, _, hr⟩ | ⟨r, hr, eff⟩
    · simp only [hr]
      exact h.move .crashed (Or.inr ⟨_, rfl⟩)
    · simp only [hr]
      cases eff with
      | kept => exact (h.settleKept port).move .waiting (Or.inl rfl)
      | @cleaned t _ _ _ _ hcopy ht _ hec hc hdt eff =>
        have waiting : ∀ s ∈ l.blocked, s.item ≠ t := by
          apply can copy (by rw [completing]; rfl) t
          simp [Callback.oneShotTimer, hhandler, hcopy]
        exact (h.settleCleaned few port ht hec hc hdt eff waiting).move .waiting (Or.inl rfl)

/-- The stash binds an id in flight to the function of the live callback that has the id. -/
theorem Traced.justified_of_stash (h : Traced created seen l) {k : Nat} (hk : k ∈ flights seen l)
    {fn : Fn} (hst : l.registry.stash k = some fn) : Justified seen k fn := by
  obtain ⟨hd, fn', rep, hm⟩ := h.known k hk
  have hfn := h.functions hd k fn' rep hm
  obtain ⟨c, d, hc, hid⟩ := h.consistent.keys k fn hst
  have hsame : fn = fn' := by
    have := (h.consistent.bound c d hc).2
    rw [hid, hst, hfn] at this
    exact Option.some.inj this
  subst hsame
  obtain ⟨a, b, hsplit⟩ := List.append_of_mem hm
  refine ⟨a, hd, rep, b, hsplit, ?_⟩
  intro hcl
  exact h.cleared a b hd k fn rep hsplit hcl c d hc hid

/-- The call of a function moves its id from the queue to the trace. -/
theorem Traced.invoke (h : Traced created seen l) {copy : Callback} {rest : List Callback}
    (hqueue : l.queue = copy :: rest) {fn : Fn} (justified : Justified seen copy.id fn) :
    Traced created (seen ++ [.invoked copy.id fn])
      { l with queue := rest, phase := .dispatching copy } := by
  have old : ∀ {q k : Nat} {g : Fn} {p : Bool},
      .registered q k g p ∈ seen ++ [.invoked copy.id fn] → .registered q k g p ∈ seen := by
    intro q k g p hq
    rcases List.mem_append.mp hq with hq | hq
    · exact hq
    · cases List.mem_singleton.mp hq
  have perm : (flights (seen ++ [.invoked copy.id fn])
      { l with queue := rest, phase := .dispatching copy }).Perm (flights seen l) := by
    have hinv : ([.invoked copy.id fn] : List (Event Fn)).filterMap Event.invokedId =
        [copy.id] := rfl
    simp only [flights, List.filterMap_append, hinv, hqueue, List.map_cons, List.append_assoc,
      List.cons_append]
    exact List.Perm.refl _
  refine ⟨h.consistent, h.wired, h.attached, h.inherited, ?_, ?_, ?_, ?_, ?_, ?_, ?_, ?_⟩
  · intro q k g p hq
    exact h.functions q k g p (old hq)
  · have hret : ([.invoked copy.id fn] : List (Event Fn)).filterMap Event.returnedId = [] := rfl
    rw [List.filterMap_append, hret, List.append_nil]
    exact h.returned
  · intro q x k g p hq hm
    exact h.handles q x k g p hq (old hm)
  · intro a b q k g p hsplit hcl
    rcases concat_eq_append_cons hsplit with ⟨rfl, _⟩ | ⟨b', rfl, hold⟩
    · cases hcl
    · rcases List.mem_append.mp hcl with hcl | hcl
      · exact h.cleared a b' q k g p hold hcl
      · cases List.mem_singleton.mp hcl
  · intro p k hk
    obtain ⟨q, g, hq⟩ := h.expiring p k hk
    exact ⟨q, g, List.mem_append_left _ hq⟩
  · intro k hk
    obtain ⟨q, g, p, hq⟩ := h.known k (perm.mem_iff.mp hk)
    exact ⟨q, g, p, List.mem_append_left _ hq⟩
  · intro q k g hq
    rw [perm.count_eq]
    exact h.once q k g (old hq)
  · intro before id g after hsplit
    rcases concat_eq_append_cons hsplit with ⟨_, rfl, heq⟩ | ⟨after', _, hold⟩
    · cases heq
      exact justified
    · exact h.justified before id g after' hold

theorem Traced.receive (h : Traced created seen l) (few : created.length < 2 ^ 53)
    {copy : Callback} {rest : List Callback} (hqueue : l.queue = copy :: rest) :
    Traced created (seen ++ [({ l with queue := rest }.receive copy).2])
      ({ l with queue := rest }.receive copy).1 := by
  have inFlight : copy.id ∈ flights seen l := by
    simp [flights, hqueue]
  have key : uint64ToDouble copy.id = copy.id := by
    obtain ⟨hd, fn, rep, hm⟩ := h.known copy.id inFlight
    have hlt := (List.getElem?_eq_some_iff.mp (h.functions hd copy.id fn rep hm)).1
    exact uint64ToDouble_small (by omega)
  unfold Loop.receive
  simp only [Loop.lookup, key, h.inherited, Option.or_none]
  cases hst : l.registry.stash copy.id with
  | none =>
    simp only [Option.map_none]
    have taken : Traced created seen { l with queue := rest, phase := .completing copy } := by
      refine h.shrink h.consistent h.wired h.attached h.inherited (fun _ _ hc => hc)
        (fun _ _ hk => hk) ?_
      apply List.Sublist.append_left
      apply List.Sublist.append_right
      rw [hqueue, List.map_cons]
      exact List.sublist_cons_self _ _
    exact taken.plain rfl rfl nofun
  | some fn =>
    simp only [Option.map_some]
    exact h.invoke hqueue (h.justified_of_stash inFlight hst)

/-- A sender whose id is accounted for nowhere else puts it in flight. -/
theorem Traced.send (h : Traced created seen l) {s : Sender} (att : Attached l.registry s)
    {k : Nat} (hk : l.registry.timerId s.item = some k)
    (known : ∃ hd fn rep, .registered hd k fn rep ∈ seen)
    (new : ∀ hd fn, .registered hd k fn false ∈ seen →
      (flights seen l).count k = 0 ∧ ¬ Expiring l.registry false k) :
    Traced created (seen ++ [(l.send s).2]) (l.send s).1 := by
  obtain ⟨c, cb, e, hread, hc, he, hec, _, _⟩ := att.record h.wired
  have hid : cb.id = k := by
    have := (timerId_iff s.item cb.id).mpr ⟨e, c, cb.data, he, hec, hc, rfl⟩
    rw [hk] at this
    exact (Option.some.inj this).symm
  have goal : ∀ l' : Loop Fn, l'.registry = l.registry → l'.inherited = l.inherited →
      (∀ x ∈ l'.blocked, x ∈ l.blocked ∨ x = s) → (flights seen l').Perm (k :: flights seen l) →
      Traced created seen l' := by
    intro l' hreg hinh hblk hperm
    refine ⟨hreg ▸ h.consistent, hreg ▸ h.wired, ?_, hinh ▸ h.inherited, h.functions, h.returned,
      hreg ▸ h.handles, hreg ▸ h.cleared, hreg ▸ h.expiring, ?_, ?_, h.justified⟩
    · intro x hx
      rw [hreg]
      rcases hblk x hx with hx | rfl
      · exact h.attached x hx
      · exact att
    · intro q hq
      rcases List.mem_cons.mp (hperm.mem_iff.mp hq) with rfl | hq
      · exact known
      · exact h.known q hq
    · intro hd q fn hm
      rw [hperm.count_eq, hreg]
      by_cases hqk : q = k
      · subst hqk
        obtain ⟨hzero, hidle⟩ := new hd fn hm
        rw [List.count_cons_self, hzero]
        exact ⟨Nat.le_refl 1, fun hex => absurd hex hidle⟩
      · rw [List.count_cons_of_ne (Ne.symm hqk)]
        exact h.once hd q fn hm
  unfold Loop.send
  split
  · rw [hread]
    have moved := goal { l with queue := l.queue ++ [cb] } rfl rfl (fun x hx => Or.inl hx) ?_
    · exact moved.plain rfl rfl nofun
    simp only [flights, List.map_append, List.map_cons, List.map_nil, hid, List.append_assoc,
      List.singleton_append]
    exact (List.perm_middle.append_left _).trans List.perm_middle
  · have moved := goal { l with blocked := l.blocked ++ [s] } rfl rfl ?_ ?_
    · exact moved.plain rfl rfl nofun
    · intro x hx
      rcases List.mem_append.mp hx with hx | hx
      · exact Or.inl hx
      · exact Or.inr (List.mem_singleton.mp hx)
    · have hone : [s].filterMap (fun s => l.registry.timerId s.item) = [k] :=
        List.filterMap_cons_some (f := fun s : Sender => l.registry.timerId s.item) hk
      have shape : flights seen { l with blocked := l.blocked ++ [s] } = flights seen l ++ [k] := by
        simp only [flights, List.filterMap_append, hone, List.append_assoc]
      rw [shape]
      exact List.perm_append_singleton k (flights seen l)

theorem Traced.resume (h : Traced created seen l) {s : Sender} (hs : s ∈ l.blocked) :
    Traced created (seen ++ [({ l with blocked := l.blocked.erase s }.send s).2])
      ({ l with blocked := l.blocked.erase s }.send s).1 := by
  have waiting : Traced created seen { l with blocked := l.blocked.erase s } := by
    refine h.shrink h.consistent h.wired (fun x hx => h.attached x (List.mem_of_mem_erase hx))
      h.inherited (fun _ _ hc => hc) (fun _ _ hk => hk) ?_
    exact ((List.erase_sublist.filterMap _).append_left _).append_left _
  obtain ⟨c, cb, e, _, hc, he, hec, _, _⟩ := (h.attached s hs).record h.wired
  have hk : l.registry.timerId s.item = some cb.id :=
    (timerId_iff s.item cb.id).mpr ⟨e, c, cb.data, he, hec, hc, rfl⟩
  have whole : (flights seen l).Perm
      (cb.id :: flights seen { l with blocked := l.blocked.erase s }) := by
    have split := (List.perm_cons_erase hs).filterMap fun s => l.registry.timerId s.item
    rw [List.filterMap_cons_some (f := fun s : Sender => l.registry.timerId s.item) hk] at split
    have := (split.append_left (l.queue.map Callback.id)).append_left
      (seen.filterMap Event.invokedId)
    exact this.trans ((List.perm_middle.append_left _).trans List.perm_middle)
  apply waiting.send (h.attached s hs) hk
  · exact h.known cb.id (whole.mem_iff.mpr List.mem_cons_self)
  · intro hd fn hm
    obtain ⟨hle, hzero⟩ := h.once hd cb.id fn hm
    rw [whole.count_eq, List.count_cons_self] at hle hzero
    exact ⟨by omega, fun hex => by have := hzero hex; omega⟩

theorem Consistent.withPlatform {r : Registry Fn} (h : Consistent created r)
    (P : Heap PlatformTimer) : Consistent created { r with platformTimers := P } :=
  ⟨⟨⟨h.linked.callbacks, h.linked.timers⟩, h.ofCallback, h.ofTimer⟩, h.newest, h.keys, h.bound,
    h.sequence⟩

theorem Traced.expire (h : Traced created seen l) {handle : Nat} {p : PlatformTimer}
    (hp : l.registry.platformTimers.get? handle = some p) (active : p.active = true) :
    Traced created (seen ++ [((l.expired handle).trigger handle p).2])
      ((l.expired handle).trigger handle p).1 := by
  have lowered : ∀ rep k, Expiring (l.expired handle).registry rep k →
      Expiring l.registry rep k := by
    rintro rep k ⟨q, pt, t, hq, hact, hrep, hitem, ht⟩
    rcases modify_platform hq with ⟨_, hq⟩ | ⟨rfl, old, hold, rfl⟩
    · exact ⟨q, pt, t, hq, hact, hrep, hitem, ht⟩
    · rw [hp] at hold
      cases hold
      exact ⟨q, p, t, hp, active, hrep, hitem, ht⟩
  have hl : Traced created seen (l.expired handle) :=
    h.shrink (h.consistent.withPlatform _) (h.wired.setActive handle _) h.attached h.inherited
      (fun _ _ hc => hc) lowered (List.Sublist.refl _)
  unfold Loop.trigger
  cases hitem : p.item with
  | none => exact hl.plain rfl rfl nofun
  | some item =>
    obtain ⟨e, c, d, he, hep, hrep, hec, hc, hr⟩ := h.wired.triggered hp hitem
    -- the item and its callback are not touched by the expiry
    have he : (l.expired handle).registry.timer? item = some e := he
    have hr : timerTrigger (l.expired handle).registry item = .ok (some c) := hr
    simp only [hr]
    have att : Attached (l.expired handle).registry ⟨handle, item, some c, p.repeats⟩ :=
      ⟨e, he, hec, hep, hrep⟩
    have hk : (l.expired handle).registry.timerId item = some d.id :=
      (timerId_iff item d.id).mpr ⟨e, c, d, he, hec, hc, rfl⟩
    have expiring : Expiring l.registry p.repeats d.id :=
      ⟨handle, p, item, hp, active, rfl, hitem, hk⟩
    obtain ⟨hd, fn, hm⟩ := h.expiring p.repeats d.id expiring
    apply hl.send att hk ⟨hd, fn, _, hm⟩
    intro hd' fn' hm'
    -- the id was returned once, so this timer is the one-shot
    have once : p.repeats = false := by
      have := eq_of_nodup_filterMap h.returned hm hm' rfl rfl
      exact (Event.registered.inj this).2.2.2
    rw [once] at expiring
    refine ⟨(h.once hd' d.id fn' hm').2 expiring, ?_⟩
    rintro ⟨q, pt, t, hq, hact, hrepq, hitemq, ht⟩
    have : t = item := timerId_injective hl.consistent ht hk
    subst this
    obtain ⟨x, hx, hxq, _⟩ := hl.wired.platform q pt t hq hitemq
    rw [he] at hx
    cases hx
    rw [hep] at hxq
    cases hxq
    rcases modify_platform hq with ⟨hne, _⟩ | ⟨_, old, hold, rfl⟩
    · exact hne rfl
    · rw [hp] at hold
      cases hold
      have : p.repeats = true := hact
      rw [once] at this
      cases this

theorem Traced.refused (h : Traced created seen l) {P : Heap PlatformTimer}
    (inert : ∀ q pt, P.get? q = some pt →
      l.registry.platformTimers.get? q = some pt ∨ pt.item = none ∧ pt.active = false) :
    Traced created (seen ++ [.threw])
      { l with registry := { l.registry with platformTimers := P } } := by
  have kept : Traced created seen { l with registry := { l.registry with platformTimers := P } } := by
    refine h.shrink (h.consistent.withPlatform P) ?_ h.attached h.inherited (fun _ _ hc => hc) ?_
      (List.Sublist.refl _)
    · apply h.wired.withPlatform
      intro q pt t hq ht
      rcases inert q pt hq with hq | ⟨hn, _⟩
      · exact ⟨pt, hq, ht, rfl⟩
      · rw [hn] at ht
        cases ht
    · rintro rep k ⟨q, pt, t, hq, hact, hrep, hitem, ht⟩
      rcases inert q pt hq with hq | ⟨hn, _⟩
      · exact ⟨q, pt, t, hq, hact, hrep, hitem, ht⟩
      · rw [hn] at hitem
        cases hitem
  exact kept.plain rfl rfl nofun

theorem StartOutcome.succeeds.linked_ne_none {o : StartOutcome} {port : Port}
    (h : o.succeeds port) : o.linked port ≠ none := by
  obtain ⟨item, timer, _⟩ := h
  cases port <;> simp [StartOutcome.linked, item, timer]

section Create
variable {port : Port} {p : Nat} {fn : Fn} {o : StartOutcome} {timeout : Int} {repeats : Bool} {r : Registry Fn}

theorem created_callback (block : p ∉ l.registry.callbacks.live)
    (eff : StartEffect port o p timeout repeats ⟨l.registry.callbackSequenceId, none, none, none⟩
      (afterCreate l.registry p fn) r) {c : Nat} {d : CallbackData} (hc : r.callback? c = some d) :
    (c = p ∧ d.id = l.registry.callbackSequenceId ∧ d.userData = o.linked port) ∨
      l.registry.callback? c = some d := by
  rw [eff.callback] at hc
  split at hc
  · next e =>
    cases hc
    exact Or.inl ⟨e, rfl, by simp⟩
  · next hne =>
    rw [callback?_afterCreate block, if_neg hne] at hc
    exact Or.inr hc

/-- Old timers keep their ids, the new one gets the new id. -/
theorem created_timerId (h : Traced created seen l) (block : p ∉ l.registry.callbacks.live)
    (eff : StartEffect port o p timeout repeats ⟨l.registry.callbackSequenceId, none, none, none⟩
      (afterCreate l.registry p fn) r) (t : Nat) : r.timerId t =
      if o.linked port = some t then some l.registry.callbackSequenceId
      else l.registry.timerId t := by
  by_cases hl : o.linked port = some t
  · rw [if_pos hl, timerId_iff]
    exact ⟨_, p, _, (eff.timer t).trans (if_pos hl), rfl, (eff.callback p).trans (if_pos rfl), rfl⟩
  · have htimer : r.timer? t = l.registry.timer? t := (eff.timer t).trans (if_neg hl)
    rw [if_neg hl]
    cases ht : l.registry.timer? t with
    | none => simp [timerId, htimer, ht]
    | some e =>
      obtain ⟨c, d, hec, hc, _⟩ := h.consistent.ofTimer t e ht
      have hne : c ≠ p := by
        rintro rfl
        exact block (live_of_callback? hc)
      have hsame : r.callback? c = some d := by
        rw [eff.callback, if_neg hne]
        exact callback?_kept block fn hc
      simp [timerId, htimer, ht, hec, hsame, hc]

theorem created_expiring (h : Traced created seen l) (block : p ∉ l.registry.callbacks.live)
    (fresh : o.Fresh l.registry)
    (eff : StartEffect port o p timeout repeats ⟨l.registry.callbackSequenceId, none, none, none⟩
      (afterCreate l.registry p fn) r) {rep : Bool} {k : Nat} (hk : Expiring r rep k) :
    (k = l.registry.callbackSequenceId ∧ rep = repeats ∧ o.succeeds port) ∨
      Expiring l.registry rep k := by
  obtain ⟨q, pt, t, hq, hact, hrep, hitem, ht⟩ := hk
  rw [created_timerId h block eff] at ht
  rcases eff.platform_cases hq with ⟨_, rfl⟩ | hq
  · rw [if_pos hitem] at ht
    exact Or.inl ⟨(Option.some.inj ht).symm, hrep.symm, of_decide_eq_true hact⟩
  · have hne : o.linked port ≠ some t := by
      intro hl
      obtain ⟨e, he, _⟩ := h.wired.platform q pt t hq hitem
      rw [timer?_unlinked fresh hl] at he
      cases he
    rw [if_neg hne] at ht
    exact Or.inr ⟨q, pt, t, hq, hact, hrep, hitem, ht⟩

/-- The ids that have been given are those of the callbacks created so far. -/
theorem Traced.below (h : Traced created seen l) {handle k : Nat} {g : Fn} {rep : Bool}
    (hm : .registered handle k g rep ∈ seen) : k < created.length :=
  (List.getElem?_eq_some_iff.mp (h.functions handle k g rep hm)).1

/-- The event of a start tells of the new callback, or the start has failed. -/
def StartEvent (port : Port) (o : StartOutcome) (p id : Nat) (fn : Fn) (repeats : Bool) (event : Event Fn) :
    Prop :=
  event = .registered p id fn repeats ∧ o.succeeds port ∨ event = .threw ∧ ¬ o.succeeds port

theorem StartEvent.invokedId {id : Nat} {event : Event Fn} (hev : StartEvent port o p id fn repeats event) :
    event.invokedId = none := by
  rcases hev with ⟨rfl, _⟩ | ⟨rfl, _⟩ <;> rfl

theorem StartEvent.mem {id : Nat} {event : Event Fn} (hev : StartEvent port o p id fn repeats event)
    {handle k : Nat} {g : Fn} {rep : Bool} (hm : .registered handle k g rep ∈ seen ++ [event]) :
    .registered handle k g rep ∈ seen ∨
      (handle = p ∧ k = id ∧ g = fn ∧ rep = repeats ∧ o.succeeds port) := by
  rcases List.mem_append.mp hm with hm | hm
  · exact Or.inl hm
  · rcases hev with ⟨rfl, hs⟩ | ⟨rfl, _⟩
    · cases List.mem_singleton.mp hm
      exact Or.inr ⟨rfl, rfl, rfl, rfl, hs⟩
    · cases List.mem_singleton.mp hm

theorem created_flights (h : Traced created seen l) (block : p ∉ l.registry.callbacks.live)
    (fresh : o.Fresh l.registry)
    (eff : StartEffect port o p timeout repeats ⟨l.registry.callbackSequenceId, none, none, none⟩
      (afterCreate l.registry p fn) r) {event : Event Fn} (silent : event.invokedId = none)
    (handles : List Nat) :
    flights (seen ++ [event]) { l with registry := r, handles := handles } = flights seen l := by
  have ids : (l.blocked.filterMap fun s => r.timerId s.item) =
      l.blocked.filterMap fun s => l.registry.timerId s.item := by
    apply List.filterMap_congr
    intro s hs
    obtain ⟨e, he, _⟩ := h.attached s hs
    rw [created_timerId h block eff, if_neg]
    intro hl
    rw [timer?_unlinked fresh hl] at he
    cases he
  simp only [flights, List.filterMap_append, List.filterMap_cons_none silent, List.filterMap_nil,
    List.append_nil, ids]

/-- The id of the new callback has not been given before. -/
theorem created_returned (h : Traced created seen l) {event : Event Fn}
    (hev : StartEvent port o p created.length fn repeats event) :
    ((seen ++ [event]).filterMap Event.returnedId).Nodup := by
  rw [List.filterMap_append]
  rcases hev with ⟨rfl, _⟩ | ⟨rfl, _⟩
  · have hret : ([.registered p created.length fn repeats] : List (Event Fn)).filterMap
        Event.returnedId = [created.length] := rfl
    rw [hret, List.nodup_append]
    refine ⟨h.returned, List.nodup_singleton _, ?_⟩
    intro k hk k' hk' heq
    rw [List.mem_singleton.mp hk'] at heq
    obtain ⟨ev, hm, hid⟩ := List.mem_filterMap.mp hk
    cases ev with
    | registered hd id g rep =>
      cases hid
      have := h.below hm
      omega
    | _ => cases hid
  · have hret : ([.threw] : List (Event Fn)).filterMap Event.returnedId = [] := rfl
    rw [hret, List.append_nil]
    exact h.returned

/-- No clear so far was of the handle of the new callback. -/
theorem created_cleared (h : Traced created seen l) (block : p ∉ l.registry.callbacks.live)
    (eff : StartEffect port o p timeout repeats ⟨l.registry.callbackSequenceId, none, none, none⟩
      (afterCreate l.registry p fn) r) {event : Event Fn}
    (hev : StartEvent port o p created.length fn repeats event) {a b : List (Event Fn)} {hd k : Nat}
    {g : Fn} {rep : Bool} (hsplit : seen ++ [event] = a ++ .registered hd k g rep :: b)
    (hcl : .cleared hd ∈ b) {c : Nat} {d : CallbackData} (hc : r.callback? c = some d) :
    d.id ≠ k := by
  rcases concat_eq_append_cons hsplit with ⟨rfl, _⟩ | ⟨b', rfl, hold⟩
  · cases hcl
  · have hm : .registered hd k g rep ∈ seen := by
      rw [hold]
      simp
    have hcl' : .cleared hd ∈ b' := by
      rcases List.mem_append.mp hcl with hcl | hcl
      · exact hcl
      · rcases hev with ⟨rfl, _⟩ | ⟨rfl, _⟩ <;> cases List.mem_singleton.mp hcl
    rcases created_callback block eff hc with ⟨_, hid, _⟩ | hlive
    · have hseq := h.consistent.sequence
      have := h.below hm
      omega
    · exact h.cleared a b' hd k g rep hold hcl' c d hlive

/-- The new id is the next one, so it is not that of a callback in flight. -/
theorem Traced.none_yet (h : Traced created seen l) :
    (flights seen l).count created.length = 0 := by
  apply List.count_eq_zero.mpr
  intro hk
  obtain ⟨_, _, _, hm⟩ := h.known _ hk
  exact Nat.lt_irrefl _ (h.below hm)

theorem Traced.create (h : Traced created seen l) (few : (created ++ [fn]).length < 2 ^ 53)
    (block : p ∉ l.registry.callbacks.live) (fresh : o.Fresh l.registry)
    (eff : StartEffect port o p timeout repeats ⟨l.registry.callbackSequenceId, none, none, none⟩
      (afterCreate l.registry p fn) r) {event : Event Fn}
    (hev : StartEvent port o p l.registry.callbackSequenceId fn repeats event) (handles : List Nat) :
    Traced (created ++ [fn]) (seen ++ [event]) { l with registry := r, handles := handles } := by
  have granted : o.Fresh (afterCreate l.registry p fn) := ⟨fresh.item, fresh.timer⟩
  have new : (afterCreate l.registry p fn).callback? p =
      some ⟨l.registry.callbackSequenceId, none, none, none⟩ :=
    (callback?_afterCreate block fn p).trans (if_pos rfl)
  have hseq := h.consistent.sequence
  have same := created_flights h block fresh eff hev.invokedId handles
  have hnext : StartEvent port o p created.length fn repeats event := hseq ▸ hev
  refine ⟨(h.consistent.create block fn few).started new rfl granted eff,
    (h.wired.create block fn).started new rfl rfl granted eff, ?_, h.inherited, ?_,
    created_returned h hnext, ?_, ?_, ?_, ?_, ?_, ?_⟩
  · intro s hs
    exact (h.attached s hs).keep fun e he => timer?_kept granted eff he
  · intro hd k g rep hm
    rcases hnext.mem hm with hm | ⟨_, rfl, rfl, _⟩
    · rw [List.getElem?_append_left (h.below hm)]
      exact h.functions hd k g rep hm
    · simp
  · intro c d hd g rep hc hm
    rcases created_callback block eff hc with ⟨rfl, hid, hdt⟩ | hold
    · rcases hnext.mem hm with hm | ⟨rfl, _, _, _, hs⟩
      · have := h.below hm
        omega
      · refine ⟨rfl, ?_⟩
        rw [hdt]
        exact hs.linked_ne_none
    · rcases hnext.mem hm with hm | ⟨_, hk, _⟩
      · exact h.handles c d hd g rep hold hm
      · have := (h.consistent.bound c d hold).1
        omega
  · intro a b hd k g rep hsplit hcl c d hc
    exact created_cleared h block eff hnext hsplit hcl hc
  · intro rep k hk
    rcases created_expiring h block fresh eff hk with ⟨rfl, rfl, hs⟩ | hk
    · rcases hev with ⟨rfl, _⟩ | ⟨_, hn⟩
      · exact ⟨p, fn, List.mem_append_right _ List.mem_cons_self⟩
      · exact absurd hs hn
    · obtain ⟨hd, g, hm⟩ := h.expiring rep k hk
      exact ⟨hd, g, List.mem_append_left _ hm⟩
  · intro k hk
    rw [same] at hk
    obtain ⟨hd, g, rep, hm⟩ := h.known k hk
    exact ⟨hd, g, rep, List.mem_append_left _ hm⟩
  · intro hd k g hm
    rw [same]
    rcases hnext.mem hm with hm | ⟨_, rfl, _⟩
    · obtain ⟨hle, hzero⟩ := h.once hd k g hm
      refine ⟨hle, ?_⟩
      intro hk
      rcases created_expiring h block fresh eff hk with ⟨hk, _⟩ | hk
      · have := h.below hm
        omega
      · exact hzero hk
    · have := h.none_yet
      omega
  · intro before id g after hsplit
    rcases concat_eq_append_cons hsplit with ⟨_, _, heq⟩ | ⟨after', _, hold⟩
    · rw [heq] at hev
      exact absurd hev.invokedId nofun
    · exact h.justified before id g after' hold

end Create

end Steps

/-! ## Runs -/

/-- The functions of the callbacks the calls of a run created. -/
def creations (actions : List (Action Fn)) : List Fn :=
  actions.filterMap fun
    | .set _ call => call.creates
    | _ => none

theorem Traced.set {created : List Fn} {seen : List (Event Fn)} {l : Loop Fn}
    (h : Traced created seen l) (port : Port) (repeats : Bool) {call : SetCall Fn}
    (grant : call.Grantable l.registry)
    (few : (created ++ call.creates.toList).length < 2 ^ 53) :
    Traced (created ++ call.creates.toList) (seen ++ [(l.set port repeats call).2])
      (l.set port repeats call).1 := by
  rcases set_spec h.wired.linked grant port repeats with ⟨none_created, hr⟩ | ⟨res, r, hr, eff⟩
  · rw [none_created, Option.toList_none, List.append_nil]
    simp only [Loop.set, hr]
    exact h.move .crashed (Or.inr ⟨_, rfl⟩)
  · cases eff with
    | refused none_created inert =>
      rw [none_created, Option.toList_none, List.append_nil]
      rcases set_cases hr with ⟨_, _, hres, _⟩ | ⟨_, hset⟩
      · cases hres
      · rw [hset]
        exact h.refused inert
    | created creates hfn block fresh eff result =>
      rw [creates, Option.toList_some] at few ⊢
      rcases set_cases hr with ⟨handle, fn', hres, hfn', hset⟩ | ⟨hno, hset⟩
      · rw [hfn] at hfn'
        cases hfn'
        rcases result with ⟨hp, hs⟩ | ⟨hp, _⟩
        · rw [hset]
          rw [hres] at hp
          cases hp
          exact h.create few block fresh eff (Or.inl ⟨rfl, hs⟩) _
        · rw [hres] at hp
          cases hp
      · rcases result with ⟨hp, _⟩ | ⟨_, hs⟩
        · exact absurd hp (hno _ _ hfn)
        · rw [hset]
          exact h.create few block fresh eff (Or.inr ⟨rfl, hs⟩) l.handles

theorem loopStep_traced {port : Port} {past : List (Action Fn)} {seen : List (Event Fn)} {l l' : Loop Fn}
    {action : Action Fn} {event : Event Fn} (h : Traced (creations past) seen l)
    (few : (creations (past ++ [action])).length < 2 ^ 53)
    (can : l.Accepted port action) (step : loopStep port l action = some (l', event)) :
    Traced (creations (past ++ [action])) (seen ++ [event]) l' := by
  have split : creations (past ++ [action]) = creations past ++ creations [action] :=
    List.filterMap_append
  rw [split] at few ⊢
  have silent : creations [action] = [] → creations past ++ creations [action] = creations past := by
    intro nothing
    rw [nothing, List.append_nil]
  cases loopStep_cases step with
  | @set repeats call _ grant becomes =>
    have one : creations [Action.set repeats call] = call.creates.toList := by
      cases hc : call.creates <;> simp [creations, hc]
    rw [one] at few ⊢
    have := h.set port repeats grant few
    rwa [becomes] at this
  | @clear handle o _ _ becomes =>
    rw [silent rfl] at few ⊢
    have := h.clear few can
    rwa [becomes] at this
  | expire timer _ active _ becomes =>
    rw [silent rfl]
    have := h.expire timer active
    rwa [becomes] at this
  | expireLate _ _ _ _ => exact absurd can id
  | @inherit key value _ becomes =>
    rw [silent rfl]
    cases becomes
    have none_added : Function.update l.inherited key value = l.inherited := by
      have hvalue : value = none := can
      rw [hvalue, Function.update_eq_self_iff, h.inherited]
    rw [none_added]
    exact h.plain rfl rfl nofun
  | drain _ _ becomes =>
    rw [silent rfl]
    cases becomes
    have drained : Traced (creations past) seen { l with undrained := [] } :=
      h.shrink h.consistent h.wired h.attached h.inherited (fun _ _ hc => hc) (fun _ _ hk => hk)
        (List.Sublist.refl _)
    exact drained.plain rfl rfl nofun
  | resume _ waits _ becomes =>
    rw [silent rfl]
    have := h.resume waits
    rwa [becomes] at this
  | scriptEnds _ becomes =>
    rw [silent rfl]
    cases becomes
    exact h.move .waiting (Or.inl rfl)
  | receive _ queue becomes =>
    rw [silent rfl] at few ⊢
    have := h.receive few queue
    rwa [becomes] at this
  | @callbackReturns copy _ becomes =>
    rw [silent rfl]
    cases becomes
    exact h.move (.completing copy) (Or.inl rfl)
  | complete completing becomes =>
    rw [silent rfl] at few ⊢
    have := h.complete few completing can
    rwa [becomes] at this

/-- Every run with fewer than `2^53` callbacks whose calls are accepted: each dispatch invokes the
function that was given its id, not after a clear of its handle; a timeout is invoked at most
once. -/
theorem dispatches_are_justified (port : Port) (actions : List (Action Fn)) {l : Loop Fn}
    {events : List (Event Fn)}
    (h : Runs.run (loopStep port) Loop.initial actions = some (l, events))
    (accepted : Runs.Along (Loop.Accepted port) (loopStep port) Loop.initial actions)
    (few : (creations actions).length < 2 ^ 53) :
    (∀ before id fn after, events = before ++ .invoked id fn :: after →
      Justified before id fn) ∧
    (events.filterMap Event.returnedId).Nodup ∧
    ∀ handle id fn, .registered handle id fn false ∈ events →
      (events.filterMap Event.invokedId).count id ≤ 1 := by
  have whole := Runs.run_along
    (P := fun past seen l => (creations past).length < 2 ^ 53 →
      Traced (creations past) seen l) ?_ (fun _ => initial_traced) accepted h
  · have traced := whole few
    refine ⟨traced.justified, traced.returned, ?_⟩
    intro handle id fn hm
    refine Nat.le_trans ?_ (traced.once handle id fn hm).1
    exact (List.sublist_append_left _ _).count_le id
  · intro past seen l action l' event ih can step few
    have fewer : (creations past).length < 2 ^ 53 := by
      have : creations (past ++ [action]) = creations past ++ creations [action] :=
        List.filterMap_append
      rw [this, List.length_append] at few
      omega
    exact loopStep_traced (ih fewer) few can step

/-- The interval has an event in the queue when the timeout clears it: that event is skipped. -/
def clearWithQueuedEvent : List (Action String) :=
  [.set false ⟨some "once", some 100, some 16, ⟨some 8, some 1, true⟩⟩,
    .set true ⟨some "tick", some 100, some 32, ⟨some 24, some 2, true⟩⟩, .scriptEnds, .expire 1,
    .expire 2, .receive, .clear 32 ⟨true, true⟩, .callbackReturns, .complete ⟨true, true⟩, .receive]

theorem queued_event_is_skipped : ∃ (l : Loop String) (events : List (Event String)),
    Runs.run (loopStep .stm32) Loop.initial clearWithQueuedEvent = some (l, events) ∧
    events.getLast? = some (.skipped 1) ∧
    (∀ before id fn after, events = before ++ .invoked id fn :: after →
      Justified before id fn) ∧
    (events.filterMap Event.returnedId).Nodup ∧
    ∀ handle id fn, .registered handle id fn false ∈ events →
      (events.filterMap Event.invokedId).count id ≤ 1 := by
  have last : ((Runs.run (loopStep .stm32) Loop.initial clearWithQueuedEvent).map
      fun r => r.2.getLast?) = some (some (.skipped 1)) := by decide
  obtain ⟨⟨l, events⟩, hrun, hlast⟩ := Option.map_eq_some_iff.mp last
  exact ⟨l, events, hrun, hlast,
    dispatches_are_justified .stm32 clearWithQueuedEvent hrun (by decide) (by decide)⟩

/-- `xTimerStop` finds no room for its command, so the interval stays. -/
def clearWithRefusedStop : List (Action String) :=
  [.set true ⟨some "tick", some 100, some 16, ⟨some 8, some 1, true⟩⟩, .scriptEnds, .expire 1,
    .receive, .clear 16 ⟨false, true⟩, .callbackReturns, .complete ⟨true, true⟩, .expire 1,
    .receive]

/-- `Object.prototype[0]` is the function of the interval, which has two events in the queue. -/
def clearWithInheritedFunction : List (Action String) :=
  [.set true ⟨some "tick", some 100, some 16, ⟨some 8, some 1, true⟩⟩,
    .inherit 0 (some (.function "tick")), .scriptEnds, .expire 1, .expire 1, .receive,
    .clear 16 ⟨true, true⟩, .callbackReturns, .complete ⟨true, true⟩, .receive]

theorem justified_cons {e : Event Fn} {before : List (Event Fn)} {id : Nat} {fn : Fn} :
    Justified (e :: before) id fn ↔
      (∃ handle repeats, e = .registered handle id fn repeats ∧ .cleared handle ∉ before) ∨
        Justified before id fn := by
  constructor
  · rintro ⟨a, handle, repeats, b, hsplit, hclear⟩
    cases a with
    | nil =>
      obtain ⟨rfl, rfl⟩ := List.cons.inj hsplit
      exact Or.inl ⟨handle, repeats, rfl, hclear⟩
    | cons x a =>
      obtain ⟨rfl, rfl⟩ := List.cons.inj hsplit
      exact Or.inr ⟨a, handle, repeats, b, rfl, hclear⟩
  · rintro (⟨handle, repeats, rfl, hclear⟩ | ⟨a, handle, repeats, b, rfl, hclear⟩)
    · exact ⟨[], handle, repeats, before, rfl, hclear⟩
    · exact ⟨e :: a, handle, repeats, b, rfl, hclear⟩

theorem cleared_function_is_invoked :
    (∃ (l : Loop String) (before : List (Event String)),
      Runs.run (loopStep .stm32) Loop.initial clearWithRefusedStop =
        some (l, before ++ [.invoked 0 "tick"]) ∧ ¬ Justified before 0 "tick") ∧
    ∃ (l : Loop String) (before : List (Event String)),
      Runs.run (loopStep .unix) Loop.initial clearWithInheritedFunction =
        some (l, before ++ [.invoked 0 "tick"]) ∧ ¬ Justified before 0 "tick" := by
  have refused : (Runs.run (loopStep .stm32) Loop.initial clearWithRefusedStop).map Prod.snd =
      some ([.registered 16 0 "tick" true, .quiet, .queued 0, .invoked 0 "tick", .cleared 16,
        .quiet, .quiet, .queued 0] ++ [.invoked 0 "tick"]) := by decide
  have inherited :
      (Runs.run (loopStep .unix) Loop.initial clearWithInheritedFunction).map Prod.snd =
        some ([.registered 16 0 "tick" true, .quiet, .quiet, .queued 0, .queued 0,
          .invoked 0 "tick", .cleared 16, .quiet, .quiet] ++ [.invoked 0 "tick"]) := by decide
  have unjustified : ¬ Justified ([] : List (Event String)) 0 "tick" := by
    rintro ⟨a, _, _, _, hsplit, _⟩
    simp at hsplit
  constructor
  · obtain ⟨⟨l, events⟩, hrun, rfl⟩ := Option.map_eq_some_iff.mp refused
    exact ⟨l, _, hrun, by simp [justified_cons, unjustified]⟩
  · obtain ⟨⟨l, events⟩, hrun, rfl⟩ := Option.map_eq_some_iff.mp inherited
    exact ⟨l, _, hrun, by simp [justified_cons, unjustified]⟩

end JsEmbeddedPlatform.Timers
