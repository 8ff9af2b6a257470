import JsEmbeddedPlatform.Timers

/-!
# What the registry operations do

The list pointers represent exactly the live records, callbacks newest first and
timers in start order. While they do, every operation on a live record reaches
its end without a fault, leaves linked lists behind, and changes records, stash
and platform timers as its effect says.
-/

set_option autoImplicit false

namespace JsEmbeddedPlatform.Timers

open IntrusiveList

variable {Fn : Type}

def callbackFields : LinkFields Callback where
  next := Callback.next
  prev := Callback.prev
  setNext v c := { c with next := v }
  setPrev v c := { c with prev := v }
  next_setNext _ _ := rfl
  prev_setNext _ _ := rfl
  prev_setPrev _ _ := rfl
  next_setPrev _ _ := rfl

def timerFields : LinkFields TimerItem where
  next := TimerItem.next
  prev := TimerItem.prev
  setNext v t := { t with next := v }
  setPrev v t := { t with prev := v }
  next_setNext _ _ := rfl
  prev_setNext _ _ := rfl
  prev_setPrev _ _ := rfl
  next_setPrev _ _ := rfl

/-- A callback record without its links. -/
structure CallbackData where
  id : Nat
  argHandler : Option ArgHandler
  completionHandler : Option CompletionHandler
  userData : Option Nat
deriving DecidableEq

def Callback.data (c : Callback) : CallbackData :=
  ⟨c.id, c.argHandler, c.completionHandler, c.userData⟩

structure TimerData where
  callback : Option Nat
  timer : Option Nat
  repeats : Bool
deriving DecidableEq

def TimerItem.data (t : TimerItem) : TimerData := ⟨t.callback, t.timer, t.repeats⟩

theorem callback_unlinked : Unlinked callbackFields Callback.data := fun _ _ => ⟨rfl, rfl⟩

theorem id_unlinked : Unlinked callbackFields Callback.id := fun _ _ => ⟨rfl, rfl⟩

theorem timer_unlinked : Unlinked timerFields TimerItem.data := fun _ _ => ⟨rfl, rfl⟩

namespace Registry

/-- The callback list; its tail pointer is kept nowhere in the program. -/
def callbackList (r : Registry Fn) (last : Option Nat) : IntrusiveList Callback :=
  ⟨r.callbacks, r.callbackListFirst, last⟩

def timerList (r : Registry Fn) : IntrusiveList TimerItem :=
  ⟨r.timers, r.timerFirst, r.timerLast⟩

def callback? (r : Registry Fn) (c : Nat) : Option CallbackData :=
  (r.callbacks.get? c).map Callback.data

def timer? (r : Registry Fn) (t : Nat) : Option TimerData :=
  (r.timers.get? t).map TimerItem.data

/-- The live callbacks with their ids, newest first. -/
def ids (r : Registry Fn) : List (Nat × Nat) := r.callbacks.view Callback.id

theorem get?_of_callback? {r : Registry Fn} {c : Nat} {d : CallbackData}
    (h : r.callback? c = some d) : ∃ cb, r.callbacks.get? c = some cb ∧ cb.data = d := by
  simpa [callback?] using h

theorem get?_of_timer? {r : Registry Fn} {t : Nat} {d : TimerData}
    (h : r.timer? t = some d) : ∃ item, r.timers.get? t = some item ∧ item.data = d := by
  simpa [timer?] using h

theorem live_of_callback? {r : Registry Fn} {c : Nat} {d : CallbackData}
    (h : r.callback? c = some d) : c ∈ r.callbacks.live := by
  obtain ⟨cb, hcb, _⟩ := get?_of_callback? h
  exact Heap.mem_live_of_get? hcb

theorem live_of_timer? {r : Registry Fn} {t : Nat} {d : TimerData}
    (h : r.timer? t = some d) : t ∈ r.timers.live := by
  obtain ⟨item, hitem, _⟩ := get?_of_timer? h
  exact Heap.mem_live_of_get? hitem

end Registry

open Registry

/-- The pointer structure: both lists are linked rings of exactly the live records. -/
structure Linked (r : Registry Fn) : Prop where
  callbacks : ∃ last, (r.callbackList last).Represents callbackFields r.callbacks.live
  timers : r.timerList.Represents timerFields r.timers.live.reverse

/-! ## What the operations leave behind -/

def newCallback (id : Nat) : Callback := ⟨id, none, none, none, none, none⟩

def afterCreate (r : Registry Fn) (p : Nat) (fn : Fn) : Registry Fn :=
  let l := pushFront callbackFields (r.callbackList none) p (newCallback r.callbackSequenceId)
  { r with
    callbackSequenceId := (r.callbackSequenceId + 1) % 2 ^ 64
    callbacks := l.heap
    callbackListFirst := l.first
    stash := Function.update r.stash (uint64ToDouble r.callbackSequenceId) (some fn) }

def afterDestroy (r : Registry Fn) (c : Nat) (cb : Callback) : Registry Fn :=
  let l := unlink callbackFields (r.callbackList none) c cb
  { r with
    callbacks := l.heap
    callbackListFirst := l.first
    stash := Function.update r.stash (uint64ToDouble cb.id) none }

def afterUnlink (r : Registry Fn) (t : Nat) (item : TimerItem) : Registry Fn :=
  let l := unlink timerFields r.timerList t item
  { r with timers := l.heap, timerFirst := l.first, timerLast := l.last }

def afterAppend (r : Registry Fn) (t : Nat) (item : TimerItem) : Registry Fn :=
  let l := pushBack timerFields r.timerList t item
  { r with timers := l.heap, timerFirst := l.first, timerLast := l.last }

section Lists
variable {r : Registry Fn}

@[simp] theorem bind_ok {α β : Type} (a : α) (f : α → Except Fault β) :
    (Except.ok a >>= f) = f a := rfl

@[simp] theorem pure_eq_ok {α : Type} (a : α) : (pure a : Except Fault α) = .ok a := rfl

theorem store_ok {α : Type} {h : Heap α} {stale : Nat → Fault} {p : Nat} {f : α → α}
    (hp : p ∈ h.live) : store h stale (some p) f = .ok (h.modify p f) := by
  obtain ⟨a, ha⟩ := (h.mem_live_iff p).mp hp
  simp only [store, ha]

theorem release_ok {α : Type} {h : Heap α} {stale : Nat → Fault} {p : Nat}
    (hp : p ∈ h.live) : release h stale (some p) = .ok (h.free p) := by
  obtain ⟨a, ha⟩ := (h.mem_live_iff p).mp hp
  simp only [release, ha]

theorem create_eq (h : Linked r) {p : Nat} (fresh : p ∉ r.callbacks.live) (fn : Fn) :
    eventloopCallbackCreateFromContext fn (some p) r = .ok (some p, afterCreate r p fn) := by
  obtain ⟨last, rep⟩ := h.callbacks
  cases hf : r.callbackListFirst with
  | none =>
    simp only [eventloopCallbackCreateFromContext, hf]
    simp [afterCreate, newCallback, pushFront, callbackList, assignPrev, callbackFields, hf]
  | some first =>
    have hfirst : first ∈ r.callbacks.live := rep.first_mem hf
    have hlive : ∀ a : Callback, first ∈ (r.callbacks.alloc p a).live := by
      intro a
      rw [Heap.live_alloc fresh]
      exact List.mem_cons_of_mem p hfirst
    simp only [eventloopCallbackCreateFromContext, hf, writeCallback, store_ok (hlive _)]
    simp [afterCreate, newCallback, pushFront, callbackList, assignPrev, callbackFields, hf]

theorem destroy_eq (h : Linked r) {c : Nat} {cb : Callback} (hc : r.callbacks.get? c = some cb) :
    eventloopCallbackDestroy (some c) r = .ok (afterDestroy r c cb) := by
  obtain ⟨last, rep⟩ := h.callbacks
  have hmem := Heap.mem_live_of_get? hc
  obtain ⟨_, _, hnext, hprev⟩ := rep.around hmem hc
  have read : r.readCallback (some c) = .ok cb := by simp only [readCallback, deref, hc]
  simp only [eventloopCallbackDestroy, read, bind_ok]
  cases hp : cb.prev with
  | none =>
    cases hn : cb.next with
    | none => simp [release_ok hmem, afterDestroy, unlink, assignNext, assignPrev, callbackFields,
        callbackList, hp, hn]
    | some q =>
      have hq := hnext q hn
      simp [writeCallback, store_ok hq, release_ok, hmem, afterDestroy, unlink, assignNext,
        assignPrev, callbackFields, callbackList, hp, hn]
  | some p =>
    have hpl := hprev p hp
    cases hn : cb.next with
    | none =>
      simp [writeCallback, store_ok hpl, release_ok, hmem, afterDestroy, unlink, assignNext,
        assignPrev, callbackFields, callbackList, hp, hn]
    | some q =>
      have hq := hnext q hn
      simp [writeCallback, store_ok, hpl, hq, release_ok, hmem, afterDestroy, unlink, assignNext,
        assignPrev, callbackFields, callbackList, hp, hn]

theorem timerUnlink_eq (h : Linked r) {t : Nat} {item : TimerItem}
    (ht : r.timers.get? t = some item) : timerUnlink (some t) r = .ok (afterUnlink r t item) := by
  have rep := h.timers
  have hmem := Heap.mem_live_of_get? ht
  obtain ⟨_, _, hnext, hprev⟩ := rep.around (List.mem_reverse.mpr hmem) ht
  have read : r.readTimer (some t) = .ok item := by simp only [readTimer, deref, ht]
  simp only [timerUnlink, read, bind_ok]
  cases hp : item.prev with
  | none =>
    cases hn : item.next with
    | none => simp [release_ok hmem, afterUnlink, unlink, assignNext, assignPrev, timerFields,
        timerList, hp, hn]
    | some q =>
      have hq := List.mem_reverse.mp (hnext q hn)
      simp [writeTimer, store_ok hq, release_ok, hmem, afterUnlink, unlink, assignNext,
        assignPrev, timerFields, timerList, hp, hn]
  | some p =>
    have hpl := List.mem_reverse.mp (hprev p hp)
    cases hn : item.next with
    | none =>
      simp [writeTimer, store_ok hpl, release_ok, hmem, afterUnlink, unlink, assignNext,
        assignPrev, timerFields, timerList, hp, hn]
    | some q =>
      have hq := List.mem_reverse.mp (hnext q hn)
      simp [writeTimer, store_ok, hpl, hq, release_ok, hmem, afterUnlink, unlink, assignNext,
        assignPrev, timerFields, timerList, hp, hn]

/-- The item is allocated with null links before it is appended. -/
theorem timerAppend_eq (h : Linked r) {t : Nat} (fresh : t ∉ r.timers.live) (item : TimerItem)
    (null : item.next = none ∧ item.prev = none) :
    timerAppend t { r with timers := r.timers.alloc t item } = .ok (afterAppend r t item) := by
  have rep := h.timers
  obtain ⟨cb, timer, repeats, next, prev⟩ := item
  obtain ⟨rfl, rfl⟩ := null
  cases hf : r.timerFirst with
  | none =>
    have hl : r.timerLast = none := rep.ends.mp hf
    simp [timerAppend, afterAppend, pushBack, timerList, timerFields, assignNext, hf, hl]
  | some first =>
    cases hl : r.timerLast with
    | none =>
      have := rep.ends.mpr hl
      simp [timerList, hf] at this
    | some last =>
      have hlast : last ∈ r.timers.live := List.mem_reverse.mp (rep.last_mem hl)
      have apart : last ≠ t := fun e => fresh (e ▸ hlast)
      have first_write : last ∈ (r.timers.alloc t ⟨cb, timer, repeats, none, none⟩).live := by
        rw [Heap.live_alloc fresh]
        exact List.mem_cons_of_mem t hlast
      have second_write : t ∈ ((r.timers.alloc t ⟨cb, timer, repeats, none, none⟩).modify last
          fun x => { x with next := some t }).live := by
        rw [Heap.live_modify, Heap.live_alloc fresh]
        exact List.mem_cons_self
      simp only [timerAppend, writeTimer, store_ok first_write, bind_ok, pure_eq_ok,
        store_ok second_write, Heap.modify_comm _ apart, Heap.modify_alloc fresh]
      simp [afterAppend, pushBack, timerList, timerFields, assignNext, hf, hl]

end Lists

/-! ## What an observer of records and stash sees -/

section Create
variable {r : Registry Fn} {p : Nat} (fresh : p ∉ r.callbacks.live) (fn : Fn)

include fresh

theorem live_afterCreate : (afterCreate r p fn).callbacks.live = p :: r.callbacks.live :=
  live_pushFront (l := r.callbackList none) fresh _

theorem ids_afterCreate : (afterCreate r p fn).ids = (p, r.callbackSequenceId) :: r.ids :=
  view_pushFront (l := r.callbackList none) id_unlinked fresh _

theorem callback?_afterCreate (q : Nat) : (afterCreate r p fn).callback? q =
    if q = p then some ⟨r.callbackSequenceId, none, none, none⟩ else r.callback? q :=
  map_get?_pushFront (l := r.callbackList none) callback_unlinked fresh _ q

theorem linked_afterCreate (h : Linked r) : Linked (afterCreate r p fn) := by
  obtain ⟨last, rep⟩ := h.callbacks
  have pushed := rep.pushFront (fun _ hq => hq) fresh (newCallback r.callbackSequenceId)
  refine ⟨⟨(pushFront callbackFields (r.callbackList last) p
    (newCallback r.callbackSequenceId)).last, ?_⟩, h.timers⟩
  rw [live_afterCreate fresh fn]
  convert pushed using 1
  cases hf : r.callbackListFirst with
  | none => simp [afterCreate, callbackList, pushFront, assignPrev, hf]
  | some first => simp [afterCreate, callbackList, pushFront, assignPrev, hf]

end Create

section Destroy
variable {r : Registry Fn} {c : Nat} {cb : Callback}

theorem live_afterDestroy : (afterDestroy r c cb).callbacks.live = r.callbacks.live.filter (· ≠ c) :=
  live_unlink (l := r.callbackList none) c cb

theorem ids_afterDestroy : (afterDestroy r c cb).ids = r.ids.filter fun b => b.1 ≠ c :=
  view_unlink (l := r.callbackList none) id_unlinked c cb

theorem callback?_afterDestroy (q : Nat) : (afterDestroy r c cb).callback? q =
    if q = c then none else r.callback? q :=
  map_get?_unlink (l := r.callbackList none) callback_unlinked c cb q

theorem linked_afterDestroy (h : Linked r) (hc : r.callbacks.get? c = some cb) :
    Linked (afterDestroy r c cb) := by
  obtain ⟨last, rep⟩ := h.callbacks
  have cut := rep.unlink (Heap.mem_live_of_get? hc) (fun _ hq => hq) hc
  refine ⟨⟨(unlink callbackFields (r.callbackList last) c cb).last, ?_⟩, h.timers⟩
  rw [live_afterDestroy]
  convert cut using 1
  cases hp : cb.prev with
  | none =>
    cases hn : cb.next with
    | none => simp [afterDestroy, callbackList, unlink, assignPrev, assignNext, callbackFields, hp, hn]
    | some q =>
      simp [afterDestroy, callbackList, unlink, assignPrev, assignNext, callbackFields, hp, hn]
  | some b =>
    cases hn : cb.next with
    | none => simp [afterDestroy, callbackList, unlink, assignPrev, assignNext, callbackFields, hp, hn]
    | some q =>
      simp [afterDestroy, callbackList, unlink, assignPrev, assignNext, callbackFields, hp, hn]

end Destroy

section Unlink
variable {r : Registry Fn} {t : Nat} {item : TimerItem}

theorem live_afterUnlink : (afterUnlink r t item).timers.live = r.timers.live.filter (· ≠ t) :=
  live_unlink (l := r.timerList) t item

theorem timer?_afterUnlink (q : Nat) : (afterUnlink r t item).timer? q =
    if q = t then none else r.timer? q :=
  map_get?_unlink (l := r.timerList) timer_unlinked t item q

theorem linked_afterUnlink (h : Linked r) (ht : r.timers.get? t = some item) :
    Linked (afterUnlink r t item) := by
  refine ⟨h.callbacks, ?_⟩
  have cut := h.timers.unlink (List.mem_reverse.mpr (Heap.mem_live_of_get? ht))
    (fun _ hq => List.mem_reverse.mp hq) ht
  rw [live_afterUnlink, ← List.filter_reverse]
  exact cut

end Unlink

section Append
variable {r : Registry Fn} {t : Nat} (fresh : t ∉ r.timers.live) (item : TimerItem)

include fresh

theorem live_afterAppend : (afterAppend r t item).timers.live = t :: r.timers.live :=
  live_pushBack (l := r.timerList) fresh item

theorem timer?_afterAppend (q : Nat) : (afterAppend r t item).timer? q =
    if q = t then some item.data else r.timer? q :=
  map_get?_pushBack (l := r.timerList) timer_unlinked fresh item q

theorem linked_afterAppend (h : Linked r) : Linked (afterAppend r t item) := by
  refine ⟨h.callbacks, ?_⟩
  have pushed := h.timers.pushBack (fun _ hq => List.mem_reverse.mp hq) fresh item
  rw [live_afterAppend fresh, List.reverse_cons]
  exact pushed

end Append

section Fields
variable {r : Registry Fn}

theorem linked_modifyCallback (h : Linked r) (c : Nat) {f : Callback → Callback}
    (hf : ∀ a, (f a).next = a.next ∧ (f a).prev = a.prev) :
    Linked { r with callbacks := r.callbacks.modify c f } := by
  obtain ⟨last, rep⟩ := h.callbacks
  refine ⟨⟨last, ?_⟩, h.timers⟩
  have kept := rep.modify c hf
  rw [← Heap.live_modify r.callbacks c f] at kept
  exact kept

theorem callback?_modify (c : Nat) {f : Callback → Callback} {g : CallbackData → CallbackData}
    (hg : ∀ a, (f a).data = g a.data) (q : Nat) :
    ({ r with callbacks := r.callbacks.modify c f } : Registry Fn).callback? q =
      if q = c then (r.callback? q).map g else r.callback? q := by
  simp only [callback?, Heap.get?_modify]
  split
  · cases r.callbacks.get? q with
    | none => rfl
    | some a => exact congrArg some (hg a)
  · rfl

end Fields

/-! ## Removing a timer with its callback -/

structure CleanupEffect (r r' : Registry Fn) (t c : Nat) (d : CallbackData) (e : TimerData) :
    Prop where
  linked : Linked r'
  sequence : r'.callbackSequenceId = r.callbackSequenceId
  stash : r'.stash = Function.update r.stash (uint64ToDouble d.id) none
  ids : r'.ids = r.ids.filter fun b => b.1 ≠ c
  callback : ∀ q, r'.callback? q = if q = c then none else r.callback? q
  timerLive : r'.timers.live = r.timers.live.filter (· ≠ t)
  timer : ∀ q, r'.timer? q = if q = t then none else r.timer? q
  platform : ∀ q, r'.platformTimers.get? q =
    if e.timer = some q then none else r.platformTimers.get? q

section Cleanup
variable {r : Registry Fn} {t c : Nat} {d : CallbackData} {e : TimerData}

theorem cleanup_spec (h : Linked r) (ht : r.timer? t = some e) (hec : e.callback = some c)
    (hc : r.callback? c = some d) (port : Port) (o : StopOutcome) :
    (port = .stm32 ∧ o.deleted = false ∧ timerCleanup port o (some t) r = .ok (.timeout, r)) ∨
    ((port = .stm32 → o.deleted = true) ∧ ∃ r', timerCleanup port o (some t) r = .ok (.succ, r') ∧
      CleanupEffect r r' t c d e) := by
  obtain ⟨item, hitem, rfl⟩ := get?_of_timer? ht
  obtain ⟨cb, hcb, rfl⟩ := get?_of_callback? hc
  have read : r.readTimer (some t) = .ok item := by simp only [readTimer, deref, hitem]
  have target : item.callback = some c := hec
  by_cases hfail : port = .stm32 ∧ o.deleted = false
  · left
    exact ⟨hfail.1, hfail.2, by simp only [timerCleanup, read, bind_ok, if_pos hfail, pure_eq_ok]⟩
  · right
    have hdrop : Linked (deletePlatformTimer item.timer r) := ⟨h.callbacks, h.timers⟩
    have hdestroy : Linked (afterDestroy (deletePlatformTimer item.timer r) c cb) :=
      linked_afterDestroy hdrop hcb
    refine ⟨fun hp => ?_, afterUnlink (afterDestroy (deletePlatformTimer item.timer r) c cb) t item, ?_, ?_⟩
    · cases hd : o.deleted with
      | true => rfl
      | false => exact absurd ⟨hp, hd⟩ hfail
    · simp only [timerCleanup, read, bind_ok, if_neg hfail, target, pure_eq_ok]
      rw [destroy_eq hdrop hcb, bind_ok, timerUnlink_eq hdestroy hitem, bind_ok]
    · refine ⟨linked_afterUnlink hdestroy hitem, rfl, rfl, ids_afterDestroy, ?_, ?_, ?_, ?_⟩
      · exact callback?_afterDestroy
      · exact live_afterUnlink
      · exact timer?_afterUnlink
      · intro q
        change (deletePlatformTimer item.timer r).platformTimers.get? q = _
        cases htm : item.timer with
        | none => simp [deletePlatformTimer, TimerItem.data, htm]
        | some handle =>
          simp only [deletePlatformTimer, TimerItem.data, htm, Heap.get?_free,
            Option.some.injEq, eq_comm]

theorem stop_spec (h : Linked r) (ht : r.timer? t = some e) (hec : e.callback = some c)
    (hc : r.callback? c = some d) (hdt : d.userData = some t) (port : Port) (o : StopOutcome) :
    (port = .stm32 ∧
      (o.stopped = false ∧ eventloopPlatformTimerStop port o (some c) r = .ok (.timeout, r) ∨
        o.stopped = true ∧ o.deleted = false ∧ eventloopPlatformTimerStop port o (some c) r =
          .ok (.succ, stopPlatformTimer e.timer r))) ∨
    ((port = .stm32 → o.stopped = true ∧ o.deleted = true) ∧
      ∃ r', eventloopPlatformTimerStop port o (some c) r = .ok (.succ, r') ∧
        CleanupEffect r r' t c d e) := by
  obtain ⟨cb, hcb, rfl⟩ := get?_of_callback? hc
  have read : r.readCallback (some c) = .ok cb := by simp only [readCallback, deref, hcb]
  have link : cb.userData = some t := hdt
  cases port with
  | unix =>
    rcases cleanup_spec h ht hec hc .unix o with ⟨habs, _⟩ | ⟨_, r', hr, eff⟩
    · cases habs
    · right
      refine ⟨nofun, r', ?_, eff⟩
      simp only [eventloopPlatformTimerStop, read, bind_ok, link, hr, pure_eq_ok]
  | stm32 =>
    obtain ⟨item, hitem, rfl⟩ := get?_of_timer? ht
    have readItem : r.readTimer (some t) = .ok item := by simp only [readTimer, deref, hitem]
    have call : eventloopPlatformTimerStop .stm32 o (some c) r =
        if o.stopped = false then .ok (.timeout, r)
        else timerCleanup .stm32 o (some t) (stopPlatformTimer item.timer r) >>=
          fun p => .ok (.succ, p.2) := by
      simp only [eventloopPlatformTimerStop, read, bind_ok, link, readItem, pure_eq_ok]
    rw [call]
    cases hs : o.stopped with
    | false => exact Or.inl ⟨rfl, Or.inl ⟨rfl, rfl⟩⟩
    | true =>
      rw [if_neg (by simp)]
      have hstop : Linked (stopPlatformTimer item.timer r) := ⟨h.callbacks, h.timers⟩
      rcases cleanup_spec hstop ht hec hc .stm32 o with ⟨_, hd, hr⟩ | ⟨hd, r', hr, eff⟩
      · left
        exact ⟨rfl, Or.inr ⟨rfl, hd, by rw [hr, bind_ok]; rfl⟩⟩
      · right
        refine ⟨fun _ => ⟨rfl, hd rfl⟩, r', by rw [hr, bind_ok], ?_⟩
        refine ⟨eff.linked, eff.sequence, eff.stash, eff.ids, eff.callback, eff.timerLive,
          eff.timer, ?_⟩
        intro q
        rw [eff.platform q]
        cases htm : item.timer with
        | none => simp [stopPlatformTimer, TimerItem.data, htm]
        | some handle =>
          by_cases hq : handle = q
          · simp [TimerItem.data, htm, hq]
          · simp [stopPlatformTimer, TimerItem.data, htm, hq, Heap.get?_modify, Ne.symm hq]

theorem completion_spec (h : Linked r) (ht : r.timer? t = some e) (hec : e.callback = some c)
    (hc : r.callback? c = some d) (port : Port) (o : StopOutcome) {copy : Callback}
    (hcopy : copy.userData = some t) :
    ((e.repeats = true ∨ port = .stm32 ∧ o.deleted = false) ∧
      timerCallbackCompletion port o copy r = .ok r) ∨
    (e.repeats = false ∧ (port = .stm32 → o.deleted = true) ∧
      ∃ r', timerCallbackCompletion port o copy r = .ok r' ∧ CleanupEffect r r' t c d e) := by
  obtain ⟨item, hitem, rfl⟩ := get?_of_timer? ht
  have read : r.readTimer (some t) = .ok item := by simp only [readTimer, deref, hitem]
  simp only [timerCallbackCompletion, hcopy, read, bind_ok, pure_eq_ok]
  cases hrep : item.repeats with
  | true => exact Or.inl ⟨Or.inl hrep, by simp⟩
  | false =>
    simp only [if_true]
    rcases cleanup_spec h ht hec hc port o with ⟨hp, hd, hr⟩ | ⟨hd, r', hr, eff⟩
    · exact Or.inl ⟨Or.inr ⟨hp, hd⟩, by simp only [hr, bind_ok]⟩
    · exact Or.inr ⟨hrep, hd, r', by simp only [hr, bind_ok], eff⟩

end Cleanup

/-! ## Starting a timer -/

namespace StartOutcome

/-- The item that gets into the list. -/
def linked (o : StartOutcome) : Port → Option Nat
  | .unix => o.item
  | .stm32 => if o.timer = none then none else o.item

/-- The platform timer that gets created. -/
def granted (o : StartOutcome) : Port → Option Nat
  | .unix => if o.item = none then none else o.timer
  | .stm32 => o.timer

def succeeds (o : StartOutcome) (port : Port) : Prop :=
  o.item ≠ none ∧ o.timer ≠ none ∧ (port = .stm32 → o.started = true)

instance (o : StartOutcome) (port : Port) : Decidable (o.succeeds port) :=
  inferInstanceAs (Decidable (_ ∧ _ ∧ (_ → _)))

/-- The blocks and handles it grants are not in use. -/
structure Fresh (o : StartOutcome) (r : Registry Fn) : Prop where
  item : ∀ i, o.item = some i → i ∉ r.timers.live
  timer : ∀ p, o.timer = some p → p ∉ r.platformTimers.live

end StartOutcome

structure StartEffect (port : Port) (o : StartOutcome) (c : Nat) (timeout : Int) (repeats : Bool)
    (d : CallbackData) (r r' : Registry Fn) : Prop where
  linked : Linked r'
  sequence : r'.callbackSequenceId = r.callbackSequenceId
  stash : r'.stash = r.stash
  ids : r'.ids = r.ids
  callback : ∀ q, r'.callback? q =
    if q = c then some { d with
      completionHandler := if repeats then d.completionHandler else some .timerCallbackCompletion
      userData := (o.linked port).or d.userData }
    else r.callback? q
  timerLive : r'.timers.live = (o.linked port).toList ++ r.timers.live
  timer : ∀ q, r'.timer? q =
    if o.linked port = some q then some ⟨some c, o.timer, repeats⟩ else r.timer? q
  platform : ∀ q, r'.platformTimers.get? q =
    if o.granted port = some q then some ⟨o.item, repeats, timeout, decide (o.succeeds port)⟩
    else r.platformTimers.get? q

section Start
variable {r : Registry Fn} {c : Nat} {d : CallbackData}

def setCompletion (repeats : Bool) (c : Nat) (r : Registry Fn) : Registry Fn :=
  { r with callbacks :=
      if repeats = false then
        r.callbacks.modify c fun x => { x with completionHandler := some .timerCallbackCompletion }
      else r.callbacks }

def setUserData (item c : Nat) (r : Registry Fn) : Registry Fn :=
  { r with callbacks := r.callbacks.modify c fun x => { x with userData := some item } }

theorem linked_setCompletion (h : Linked r) (repeats : Bool) (c : Nat) :
    Linked (setCompletion repeats c r) := by
  cases repeats with
  | true => exact h
  | false =>
    exact linked_modifyCallback h c
      (f := fun x => { x with completionHandler := some .timerCallbackCompletion })
      fun _ => ⟨rfl, rfl⟩

theorem callback?_setCompletion (repeats : Bool) (hc : r.callback? c = some d) (q : Nat) :
    (setCompletion repeats c r).callback? q =
      if q = c then some { d with
        completionHandler := if repeats then d.completionHandler else some .timerCallbackCompletion }
      else r.callback? q := by
  cases repeats with
  | true =>
    by_cases hq : q = c
    · subst hq
      simp [setCompletion, hc]
    · simp [setCompletion, hq]
  | false =>
    have := callback?_modify (r := r) c (f := fun x =>
      { x with completionHandler := some .timerCallbackCompletion })
      (g := fun x => { x with completionHandler := some .timerCallbackCompletion })
      (fun _ => rfl) q
    by_cases hq : q = c
    · subst hq
      simpa [setCompletion, hc] using this
    · simpa [setCompletion, hq] using this

theorem ids_setCompletion (repeats : Bool) (c : Nat) : (setCompletion repeats c r).ids = r.ids := by
  cases repeats with
  | true => rfl
  | false =>
    exact Heap.view_modify Callback.id r.callbacks c
      (f := fun x => { x with completionHandler := some .timerCallbackCompletion }) fun _ => rfl

/-- The stretch of code both ports share: the new item and its callback point at each other. -/
def attach (repeats : Bool) (c item : Nat) (record : TimerItem) (r : Registry Fn) : Registry Fn :=
  setUserData item c (afterAppend (setCompletion repeats c r) item record)

section Attach
variable {item : Nat} {record : TimerItem} {repeats : Bool}

theorem linked_attach (h : Linked r) (fresh : item ∉ r.timers.live) :
    Linked (attach repeats c item record r) := by
  have h1 := linked_setCompletion h repeats c
  have h2 : Linked (afterAppend (setCompletion repeats c r) item record) :=
    linked_afterAppend (r := setCompletion repeats c r) fresh record h1
  exact linked_modifyCallback h2 c fun _ => ⟨rfl, rfl⟩

theorem callback?_attach (hc : r.callback? c = some d) (q : Nat) :
    (attach repeats c item record r).callback? q =
      if q = c then some { d with
        completionHandler := if repeats then d.completionHandler else some .timerCallbackCompletion
        userData := some item }
      else r.callback? q := by
  have step := callback?_modify (r := afterAppend (setCompletion repeats c r) item record) c
    (f := fun x => { x with userData := some item })
    (g := fun x => { x with userData := some item }) (fun _ => rfl) q
  have before : (afterAppend (setCompletion repeats c r) item record).callback? q =
      (setCompletion repeats c r).callback? q := rfl
  rw [before, callback?_setCompletion repeats hc] at step
  have whole : (attach repeats c item record r).callback? q = _ := step
  rw [whole]
  by_cases hq : q = c
  · simp [hq]
  · simp [hq]

theorem ids_attach : (attach repeats c item record r).ids = r.ids := by
  have h1 : (attach repeats c item record r).ids = (setCompletion repeats c r).ids :=
    Heap.view_modify Callback.id _ c fun _ => rfl
  rw [h1, ids_setCompletion]

theorem timer?_attach (fresh : item ∉ r.timers.live) (q : Nat) :
    (attach repeats c item record r).timer? q =
      if q = item then some record.data else r.timer? q :=
  timer?_afterAppend (r := setCompletion repeats c r) fresh record q

theorem timerLive_attach (fresh : item ∉ r.timers.live) :
    (attach repeats c item record r).timers.live = item :: r.timers.live :=
  live_afterAppend (r := setCompletion repeats c r) fresh record

end Attach

theorem destroyAfterFirstTrigger_eq (hc : r.callback? c = some d) (repeats : Bool) :
    destroyAfterFirstTrigger (some c) repeats r = .ok (setCompletion repeats c r) := by
  cases repeats with
  | true => rfl
  | false =>
    simp only [destroyAfterFirstTrigger, if_true, writeCallback,
      store_ok (live_of_callback? hc), bind_ok, pure_eq_ok]
    rfl

/-- The item got its block; what is left of the code writes `user_data` of a live callback. -/
theorem setUserData_eq (hc : r.callback? c = some d) (repeats : Bool) (item : Nat)
    {k : Registry Fn} (hk : k.callbacks = (setCompletion repeats c r).callbacks) :
    (k.writeCallback (some c) fun x => { x with userData := some item }) =
      .ok (setUserData item c k) := by
  have hlive : c ∈ k.callbacks.live := by
    have := live_of_callback? hc
    rw [hk]
    cases repeats <;> simpa [setCompletion] using this
  simp only [writeCallback, store_ok hlive, bind_ok, pure_eq_ok]
  rfl

theorem startEffect_of_attach (h : Linked r) (hc : r.callback? c = some d) {port : Port}
    {o : StartOutcome} {item : Nat} (record : TimerItem) {timeout : Int} {repeats : Bool}
    {P : Heap PlatformTimer} (hl : o.linked port = some item)
    (fresh : item ∉ r.timers.live) (hrec : record.data = ⟨some c, o.timer, repeats⟩)
    (hp : ∀ q, P.get? q =
      if o.granted port = some q then some ⟨o.item, repeats, timeout, decide (o.succeeds port)⟩
      else r.platformTimers.get? q) :
    StartEffect port o c timeout repeats d r
      { attach repeats c item record r with platformTimers := P } := by
  have attached : Linked (attach repeats c item record r) := linked_attach h fresh
  refine ⟨⟨attached.callbacks, attached.timers⟩, rfl, rfl,
    ids_attach, ?_, ?_, ?_, hp⟩
  · intro q
    rw [hl]
    exact callback?_attach hc q
  · rw [hl]
    exact timerLive_attach fresh
  · intro q
    have seen : (attach repeats c item record r).timer? q = _ := timer?_attach fresh q
    rw [hl]
    simp only [Option.some.injEq, eq_comm (b := q), ← hrec]
    exact seen

/-- The unix port fills in the thread after it has linked the item. -/
theorem attach_setTimer (h : Linked r) {item : Nat} (fresh : item ∉ r.timers.live)
    (thread : Nat) (repeats : Bool) :
    ((attach repeats c item ⟨some c, none, repeats, none, none⟩ r).writeTimer (some item)
      fun t => { t with timer := some thread }) =
        .ok (attach repeats c item ⟨some c, some thread, repeats, none, none⟩ r) := by
  have hlive : item ∈ (attach repeats c item ⟨some c, none, repeats, none, none⟩ r).timers.live := by
    rw [timerLive_attach fresh]
    exact List.mem_cons_self
  have pushed : (attach repeats c item ⟨some c, none, repeats, none, none⟩ r).timers.modify item
      (fun t => { t with timer := some thread }) =
        (attach repeats c item ⟨some c, some thread, repeats, none, none⟩ r).timers := by
    change (pushBack timerFields r.timerList item ⟨some c, none, repeats, none, none⟩).heap.modify
      item _ = (pushBack timerFields r.timerList item ⟨some c, some thread, repeats, none, none⟩).heap
    cases hl : r.timerLast with
    | none => simp [pushBack, assignNext, timerList, hl, Heap.modify_alloc fresh, timerFields]
    | some last =>
      have hlast : last ≠ item := by
        rintro rfl
        exact fresh (List.mem_reverse.mp (h.timers.last_mem hl))
      simp [pushBack, assignNext, timerList, hl, Heap.modify_comm _ hlast,
        Heap.modify_alloc fresh, timerFields]
  have first : (attach repeats c item ⟨some c, none, repeats, none, none⟩ r).timerFirst =
      (attach repeats c item ⟨some c, some thread, repeats, none, none⟩ r).timerFirst := by
    change (pushBack timerFields r.timerList item _).first =
      (pushBack timerFields r.timerList item _).first
    cases hl : r.timerLast with
    | none => simp [pushBack, assignNext, timerList, hl]
    | some last => simp [pushBack, assignNext, timerList, hl]
  simp only [writeTimer, store_ok hlive, bind_ok, pure_eq_ok, pushed, first]
  rfl

theorem get?_granted {o : StartOutcome} {port : Port} {p : Nat} {timers : Heap PlatformTimer}
    (granted : o.granted port = some p) (fresh : p ∉ timers.live) (t : PlatformTimer) (q : Nat) :
    (timers.alloc p t).get? q = if o.granted port = some q then some t else timers.get? q := by
  rw [Heap.get?_alloc fresh, granted]
  by_cases hq : q = p
  · simp [hq]
  · simp [hq, Ne.symm hq]

theorem start_spec_unix (h : Linked r) (hc : r.callback? c = some d) {o : StartOutcome}
    (fresh : o.Fresh r) (timeout : Int) (repeats : Bool) :
    ∃ ret r', timerStartUnix o (some c) timeout repeats r = .ok (ret, r') ∧
      (ret = .succ ↔ o.succeeds .unix) ∧
      StartEffect .unix o c timeout repeats d r r' := by
  have h1 := linked_setCompletion h repeats c
  simp only [timerStartUnix, destroyAfterFirstTrigger_eq hc, bind_ok, pure_eq_ok]
  cases hi : o.item with
  | none =>
    refine ⟨.mem, setCompletion repeats c r, rfl, by simp [StartOutcome.succeeds, hi], ?_⟩
    refine ⟨h1, rfl, rfl, ids_setCompletion repeats c, ?_, ?_, ?_, ?_⟩
    · intro q
      simpa [StartOutcome.linked, hi] using callback?_setCompletion repeats hc q
    · simp [StartOutcome.linked, hi, setCompletion]
    · intro q
      simp only [StartOutcome.linked, hi, reduceCtorEq, if_false]
      rfl
    · intro q
      simp [StartOutcome.granted, hi, setCompletion]
  | some item =>
    have hfresh := fresh.item item hi
    have hl : o.linked .unix = some item := hi
    have append := timerAppend_eq h1 hfresh ⟨some c, none, repeats, none, none⟩ ⟨rfl, rfl⟩
    have write := setUserData_eq hc repeats item (k := afterAppend (setCompletion repeats c r) item
      ⟨some c, none, repeats, none, none⟩) rfl
    simp only [append, bind_ok, write]
    cases ht : o.timer with
    | none =>
      refine ⟨.timeout, attach repeats c item _ r, rfl, by simp [StartOutcome.succeeds, ht], ?_⟩
      apply startEffect_of_attach (P := r.platformTimers) h hc _ hl hfresh
      · simp [TimerItem.data, ht]
      · intro q
        simp [StartOutcome.granted, hi, ht]
    | some thread =>
      have handle := attach_setTimer (c := c) h hfresh thread repeats
      simp only [attach] at handle
      simp only [handle, bind_ok]
      refine ⟨.succ, _, rfl, by simp [StartOutcome.succeeds, hi, ht], ?_⟩
      apply startEffect_of_attach h hc _ hl hfresh
      · simp [TimerItem.data, ht]
      · intro q
        have granted : o.granted .unix = some thread := by simp [StartOutcome.granted, hi, ht]
        change (r.platformTimers.alloc thread _).get? q = _
        rw [get?_granted granted (fresh.timer thread ht)]
        simp [StartOutcome.succeeds, hi, ht]

theorem start_spec_stm32 (h : Linked r) (hc : r.callback? c = some d) {o : StartOutcome}
    (fresh : o.Fresh r) (timeout : Int) (repeats : Bool) :
    ∃ ret r', timerStartStm32 o (some c) timeout repeats r = .ok (ret, r') ∧
      (ret = .succ ↔ o.succeeds .stm32) ∧
      StartEffect .stm32 o c timeout repeats d r r' := by
  have h1 := linked_setCompletion h repeats c
  simp only [timerStartStm32, destroyAfterFirstTrigger_eq hc, bind_ok, pure_eq_ok]
  cases ht : o.timer with
  | none =>
    refine ⟨.mem, setCompletion repeats c r, rfl, by simp [StartOutcome.succeeds, ht], ?_⟩
    refine ⟨h1, rfl, rfl, ids_setCompletion repeats c, ?_, ?_, ?_, ?_⟩
    · intro q
      simpa [StartOutcome.linked, ht] using callback?_setCompletion repeats hc q
    · simp [StartOutcome.linked, ht, setCompletion]
    · intro q
      simp only [StartOutcome.linked, ht, if_true, reduceCtorEq, if_false]
      rfl
    · intro q
      simp [StartOutcome.granted, ht, setCompletion]
  | some timer =>
    have htimer := fresh.timer timer ht
    have granted : o.granted .stm32 = some timer := ht
    cases hi : o.item with
    | none =>
      refine ⟨.mem, _, rfl, by simp [StartOutcome.succeeds, hi], ?_⟩
      refine ⟨⟨h1.callbacks, h1.timers⟩, rfl, rfl, ids_setCompletion repeats c, ?_, ?_, ?_, ?_⟩
      · intro q
        change (setCompletion repeats c r).callback? q = _
        simpa [StartOutcome.linked, ht, hi] using callback?_setCompletion repeats hc q
      · simp [StartOutcome.linked, ht, hi, setCompletion]
      · intro q
        simp only [StartOutcome.linked, ht, hi, reduceCtorEq, if_false]
        rfl
      · intro q
        change (r.platformTimers.alloc timer _).get? q = _
        rw [get?_granted granted htimer]
        simp [StartOutcome.succeeds, hi]
    | some item =>
      have hfresh := fresh.item item hi
      have hl : o.linked .stm32 = some item := by simp [StartOutcome.linked, ht, hi]
      let record : TimerItem := ⟨some c, some timer, repeats, none, none⟩
      let created : PlatformTimer := ⟨none, repeats, timeout, false⟩
      let r2 : Registry Fn := { setCompletion repeats c r with
        platformTimers := r.platformTimers.alloc timer created }
      have h2 : Linked r2 := ⟨h1.callbacks, h1.timers⟩
      have append := timerAppend_eq h2 hfresh record ⟨rfl, rfl⟩
      have write := setUserData_eq hc repeats item (k := { afterAppend r2 item record with
        platformTimers := (r.platformTimers.alloc timer created).modify timer
          fun t => { t with item := some item } }) rfl
      have hdata : record.data = ⟨some c, o.timer, repeats⟩ := by simp [record, TimerItem.data, ht]
      change ∃ ret r', (timerAppend item { r2 with timers := r2.timers.alloc item record } >>= _) =
        Except.ok (ret, r') ∧ _
      rw [append]
      simp only [bind_ok]
      change ∃ ret r', (Registry.writeCallback { afterAppend r2 item record with
        platformTimers := (r.platformTimers.alloc timer created).modify timer
          fun t => { t with item := some item } } _ _ >>= _) = Except.ok (ret, r') ∧ _
      rw [write]
      simp only [bind_ok]
      cases hs : o.started with
      | false =>
        refine ⟨.timeout, _, rfl, by simp [StartOutcome.succeeds, hs], ?_⟩
        apply startEffect_of_attach h hc record hl hfresh hdata
        intro q
        change (((r.platformTimers.alloc timer created).modify timer _).get? q) = _
        rw [Heap.modify_alloc htimer, get?_granted granted htimer]
        simp [StartOutcome.succeeds, created, hi, hs]
      | true =>
        refine ⟨.succ, _, rfl, by simp [StartOutcome.succeeds, hs, ht, hi], ?_⟩
        apply startEffect_of_attach h hc record hl hfresh hdata
        intro q
        change (((r.platformTimers.alloc timer created).modify timer
          fun t => { t with item := some item }).modify timer
            fun t => { t with active := true }).get? q = _
        rw [Heap.modify_alloc htimer, Heap.modify_alloc htimer, get?_granted granted htimer]
        simp [StartOutcome.succeeds, created, hi, ht, hs]

theorem start_spec (h : Linked r) (hc : r.callback? c = some d) {o : StartOutcome}
    (fresh : o.Fresh r) (port : Port) (timeout : Int) (repeats : Bool) :
    ∃ ret r', eventloopPlatformTimerStart port o (some c) timeout repeats r = .ok (ret, r') ∧
      (ret = .succ ↔ o.succeeds port) ∧ StartEffect port o c timeout repeats d r r' := by
  cases port with
  | unix => exact start_spec_unix h hc fresh timeout repeats
  | stm32 => exact start_spec_stm32 h hc fresh timeout repeats

end Start

end JsEmbeddedPlatform.Timers
