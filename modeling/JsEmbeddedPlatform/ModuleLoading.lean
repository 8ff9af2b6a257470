import JsEmbeddedPlatform.ClearEventloop
import JsEmbeddedPlatform.Shared.CString
import JsEmbeddedPlatform.Shared.Runs

/-!
# Loading of modules

A module is registered before the program runs and loaded by its first successful `require`.
The two lists have entries of their own; the flag in the registered one tells that there is a
loaded one. Every round of the loop walks the loaded list, and `clear_eventloop` releases both.
-/

set_option autoImplicit false

namespace JsEmbeddedPlatform.ModuleLoading

open Timers (ModuleEntry Released releaseModules)

/-- `module_t`. Of the two functions that can be NULL only that is said; what `init_func` returns
comes with each call. -/
structure Module where
  keyword : List UInt8
  eventloopFunc : Bool
  cleanupFunc : Bool

structure Lists where
  entries : Heap ModuleEntry
  registeredModules : Option Nat
  loadedModules : Option Nat

/-! ## The functions -/

def eventloopRegisterModule (module malloc : Nat) (l : Lists) : Lists :=
  { l with
    entries := l.entries.alloc malloc ⟨module, false, l.registeredModules⟩
    registeredModules := some malloc }

/-- The search of `require`. An entry that is not allocated ends it with `none`, and so does a
list that never ends. -/
def findEntry (table : Nat → Module) (loadedName : List UInt8) (entries : Heap ModuleEntry) :
    Nat → Option Nat → Option (Option Nat)
  | _, none => some none
  | 0, some _ => none
  | rounds + 1, some ptr => do
    let entry ← entries.get? ptr
    if (table entry.module).keyword = loadedName then some (some ptr)
    else findEntry table loadedName entries rounds entry.next

/-- The module whose `init_func` was called, and the error that is thrown. -/
structure Required where
  init : Option Nat
  thrown : Option String
deriving DecidableEq, Repr

def eventloopNativeLoadModule (table : Nat → Module) (loadedName : List UInt8) (initialised : Bool)
    (malloc : Nat) (l : Lists) : Option (Required × Lists) := do
  -- `strcmp` sees no more of a name than what is in front of its first NUL
  match ← findEntry table (CString.text loadedName) l.entries l.entries.live.length
    l.registeredModules with
  | none => some (⟨none, some "Module not found"⟩, l)
  | some ptr =>
    let entry ← l.entries.get? ptr
    if initialised = false then
      some (⟨some entry.module, some "Module initialization failed"⟩, l)
    else if entry.isLoaded then some (⟨some entry.module, none⟩, l)
    else some (⟨some entry.module, none⟩, { l with
      entries := (l.entries.alloc malloc ⟨entry.module, true, l.loadedModules⟩).modify ptr
        fun e => { e with isLoaded := true }
      loadedModules := some malloc })

/-- The walk at the start of each round, with the modules whose `eventloop_func` it calls. -/
def poll (table : Nat → Module) (entries : Heap ModuleEntry) : Nat → Option Nat → Option (List Nat)
  | _, none => some []
  | 0, some _ => none
  | rounds + 1, some p => do
    let entry ← entries.get? p
    let called ← poll table entries rounds entry.next
    some (if (table entry.module).eventloopFunc then entry.module :: called else called)

/-- The modules whose `cleanup_func` has been called, and the entries that have been released. -/
structure Cleanup where
  cleaned : List Nat
  released : List Nat
deriving DecidableEq, Repr

/-- One round of the loops in `clear_eventloop`. -/
def releaseEntry (cleans : Nat → Bool) (p : Nat) (s : Heap ModuleEntry × Cleanup) :
    Except Released (Option Nat × Heap ModuleEntry × Cleanup) :=
  match s.1.get? p with
  | none => .error (.module p)
  | some entry => .ok (entry.next, s.1.free p,
      ⟨s.2.cleaned ++ if cleans entry.module then [entry.module] else [], s.2.released ++ [p]⟩)

/-- What `clear_eventloop` does with the two lists. -/
def clearModules (table : Nat → Module) (l : Lists) : Except Released (Lists × Cleanup) := do
  let (unloaded, done) ← Chain.walk (releaseEntry fun m => (table m).cleanupFunc)
    l.entries.live.length l.loadedModules (l.entries, ⟨[], []⟩)
  let (unregistered, done) ← Chain.walk (releaseEntry fun _ => false)
    unloaded.live.length l.registeredModules (unloaded, done)
  pure (⟨unregistered, none, none⟩, done)

/-! ## Calls -/

/-- `malloc` is what it returns in the call, when it is called. -/
inductive Call where
  | register (module malloc : Nat)
  | require (loadedName : List UInt8) (initialised : Bool) (malloc : Nat)
  | poll
  | clear

inductive Output where
  | quiet
  | required (r : Required)
  | polled (called : List Nat)
  | cleared (done : Cleanup)
deriving DecidableEq, Repr

/-- `succeeded` has the modules whose `init_func` has succeeded since the lists were cleared. -/
structure State where
  lists : Lists
  succeeded : List Nat

def start : State := ⟨⟨Heap.empty, none, none⟩, []⟩

def Required.succeeded (r : Required) : List Nat :=
  match r.init, r.thrown with
  | some m, none => [m]
  | _, _ => []

/-- A module is registered when none of its keyword is. -/
def step (table : Nat → Module) (s : State) : Call → Option (State × Output)
  | .register module malloc =>
    if malloc ∉ s.lists.entries.live ∧ findEntry table (table module).keyword s.lists.entries
        s.lists.entries.live.length s.lists.registeredModules = some none then
      some ({ s with lists := eventloopRegisterModule module malloc s.lists }, .quiet)
    else none
  | .require loadedName initialised malloc =>
    if malloc ∉ s.lists.entries.live then do
      let (r, lists) ← eventloopNativeLoadModule table loadedName initialised malloc s.lists
      some (⟨lists, r.succeeded ++ s.succeeded⟩, .required r)
    else none
  | .poll => do
    let called ← poll table s.lists.entries s.lists.entries.live.length s.lists.loadedModules
    some (s, .polled called)
  | .clear =>
    match clearModules table s.lists with
    | .error _ => none
    | .ok (lists, done) => some (⟨lists, []⟩, .cleared done)

/-! ## Balance -/

def moduleOf (entries : Heap ModuleEntry) (p : Nat) : Option Nat :=
  (entries.get? p).map ModuleEntry.module

def modulesOf (entries : Heap ModuleEntry) (ps : List Nat) : List Nat :=
  ps.filterMap (moduleOf entries)

/-- Both lists with the addresses of their entries: each module whose `init_func` has succeeded is
loaded once and no other one is, and the flags say which. -/
structure Loaded (s : State) (loaded registered : List Nat) : Prop where
  loadedList : Chain.Leads ModuleEntry.next s.lists.entries s.lists.loadedModules loaded
  registeredList : Chain.Leads ModuleEntry.next s.lists.entries s.lists.registeredModules registered
  once : (modulesOf s.lists.entries loaded).Nodup
  succeeded : ∀ m, m ∈ modulesOf s.lists.entries loaded ↔ m ∈ s.succeeded
  flags : ∀ p ∈ loaded ++ registered, ∀ e, s.lists.entries.get? p = some e →
    (e.isLoaded = true ↔ e.module ∈ modulesOf s.lists.entries loaded)

/-- Each of the modules is called once when it has the function, and no other is. -/
def CalledOnce (func : Nat → Bool) (succeeded called : List Nat) : Prop :=
  called.Nodup ∧ ∀ m, m ∈ called ↔ m ∈ succeeded ∧ func m = true

/-- The lists are released as a whole, and each entry of them once. -/
def ReleasedOnce (before : Heap ModuleEntry) (lists : Lists) (released : List Nat) : Prop :=
  released.Nodup ∧ (∀ p, p ∈ released ↔ p ∈ before.live) ∧ lists.entries.live = [] ∧
    lists.loadedModules = none ∧ lists.registeredModules = none

structure Balanced (table : Nat → Module) (s : State) : Prop where
  loaded : ∃ loaded registered, Loaded s loaded registered
  requires : ∀ loadedName initialised malloc, malloc ∉ s.lists.entries.live →
    ∃ t r, step table s (.require loadedName initialised malloc) = some (t, .required r)
  polls : ∃ called, step table s .poll = some (s, .polled called) ∧
    CalledOnce (fun m => (table m).eventloopFunc) s.succeeded called
  clears : ∃ t done, step table s .clear = some (t, .cleared done) ∧
    CalledOnce (fun m => (table m).cleanupFunc) s.succeeded done.cleaned ∧
    ReleasedOnce s.lists.entries t.lists done.released

/-! ## Walks along the lists -/

section Walks
variable {table : Nat → Module} {h k : Heap ModuleEntry} {p : Option Nat} {xs : List Nat}

theorem moduleOf_eq {x : Nat} {e : ModuleEntry} (he : h.get? x = some e) :
    moduleOf h x = some e.module := by
  unfold moduleOf
  rw [he, Option.map_some]

theorem modulesOf_cons {x : Nat} {e : ModuleEntry} (he : h.get? x = some e) (xs : List Nat) :
    modulesOf h (x :: xs) = e.module :: modulesOf h xs := by
  unfold modulesOf
  rw [List.filterMap_cons, moduleOf_eq he]

theorem modulesOf_congr (same : ∀ x ∈ xs, moduleOf k x = moduleOf h x) :
    modulesOf k xs = modulesOf h xs :=
  List.filterMap_congr same

theorem mem_modulesOf {m : Nat} :
    m ∈ modulesOf h xs ↔ ∃ x ∈ xs, ∃ e, h.get? x = some e ∧ e.module = m := by
  unfold modulesOf moduleOf
  simp only [List.mem_filterMap, Option.map_eq_some_iff]

/-- The search finds the first entry with the keyword. -/
theorem findEntry_eq {rounds : Nat} (loadedName : List UInt8)
    (hl : Chain.Leads ModuleEntry.next h p xs) (hrounds : xs.length ≤ rounds) :
    findEntry table loadedName h rounds p =
      some (xs.find? fun x => (moduleOf h x).any fun m => (table m).keyword = loadedName) := by
  refine hl.rounds_induction (motive := fun rounds p xs => findEntry table loadedName h rounds p =
    some (xs.find? fun x => (moduleOf h x).any fun m => (table m).keyword = loadedName)) ?_ ?_ hrounds
  · intro rounds
    cases rounds <;> rfl
  · intro rounds x e xs he ih
    rw [findEntry, he, List.find?_cons, moduleOf_eq he, Option.any_some]
    simp only [Option.bind_eq_bind, Option.bind_some]
    by_cases hname : (table e.module).keyword = loadedName
    · rw [if_pos hname, decide_eq_true hname]
    · rw [if_neg hname, decide_eq_false hname]
      exact ih

theorem poll_eq {rounds : Nat} (hl : Chain.Leads ModuleEntry.next h p xs)
    (hrounds : xs.length ≤ rounds) :
    poll table h rounds p = some ((modulesOf h xs).filter fun m => (table m).eventloopFunc) := by
  refine hl.rounds_induction (motive := fun rounds p xs => poll table h rounds p =
    some ((modulesOf h xs).filter fun m => (table m).eventloopFunc)) ?_ ?_ hrounds
  · intro rounds
    cases rounds <;> rfl
  · intro rounds x e xs he ih
    rw [poll, he, modulesOf_cons he, List.filter_cons]
    simp only [Option.bind_eq_bind, Option.bind_some]
    rw [ih, Option.bind_some]

/-- What is left of the walk, with what it has done so far. -/
structure Releasing (cleans : Nat → Bool) (h : Heap ModuleEntry) (all : List Nat)
    (done : Cleanup) (rest : List Nat) (s : Heap ModuleEntry × Cleanup) : Prop where
  left : Chain.Left ModuleEntry.next h all rest s.1
  same : ∀ x ∈ rest, s.1.get? x = h.get? x
  cleaned : s.2.cleaned ++ (modulesOf h rest).filter cleans =
    done.cleaned ++ (modulesOf h all).filter cleans
  released : s.2.released ++ rest = done.released ++ all

theorem releaseEntry_step {cleans : Nat → Bool} {all : List Nat} {done : Cleanup} {x : Nat}
    {s : Heap ModuleEntry × Cleanup} (hs : Releasing cleans h all done (x :: xs) s) :
    ∃ t, releaseEntry cleans x s = .ok (xs.head?, t) ∧ Releasing cleans h all done xs t := by
  obtain ⟨e, he, hnext, hleft⟩ := hs.left.step
  obtain ⟨hx, _⟩ := List.nodup_cons.mp hs.left.nodup
  have hin : h.get? x = some e := by
    rw [← hs.same x List.mem_cons_self, he]
  refine ⟨⟨s.1.free x, s.2.cleaned ++ if cleans e.module then [e.module] else [],
    s.2.released ++ [x]⟩, ?_, hleft, ?_, ?_, ?_⟩
  · simp only [releaseEntry, he, hnext]
  · intro y hy
    simp only
    rw [Heap.get?_free, if_neg, hs.same y (List.mem_cons_of_mem x hy)]
    rintro rfl
    exact hx hy
  · have hcleaned := hs.cleaned
    rw [modulesOf_cons hin, List.filter_cons] at hcleaned
    rw [← hcleaned, List.append_assoc]
    split <;> rfl
  · rw [List.append_assoc, List.singleton_append]
    exact hs.released

/-- A whole list is released, and its modules are cleaned up. -/
theorem walk_releaseEntry (cleans : Nat → Bool) (hl : Chain.Leads ModuleEntry.next h p xs)
    (nodup : xs.Nodup) (done : Cleanup) :
    ∃ k, Chain.walk (releaseEntry cleans) h.live.length p (h, done) =
        .ok (k, ⟨done.cleaned ++ (modulesOf h xs).filter cleans, done.released ++ xs⟩) ∧
      ∀ q, k.get? q = if q ∈ xs then none else h.get? q := by
  have hlength : xs.length ≤ h.live.length := List.Nodup.length_le_of_subset nodup hl.live
  obtain ⟨⟨k, after⟩, hwalk, hend⟩ := Chain.walk_spec (releaseEntry cleans)
    (I := Releasing cleans h xs done) (fun _ _ _ hs => releaseEntry_step hs) hlength
    (s := (h, done)) ⟨Chain.Left.begin hl nodup, fun _ _ => rfl, rfl, rfl⟩
  refine ⟨k, ?_, ?_⟩
  · have hcleaned := hend.cleaned
    have hreleased := hend.released
    simp only [modulesOf, List.filterMap_nil, List.filter_nil, List.append_nil] at hcleaned hreleased
    rw [hl.head, hwalk, ← hreleased]
    congr 2
    cases after
    exact congrArg (Cleanup.mk · _) hcleaned
  · intro q
    have := hend.left.rest q
    rwa [if_neg List.not_mem_nil] at this

/-- Seen without the account, the lists are released as `clear_eventloop` releases them. -/
theorem walk_releases (cleans : Nat → Bool) (done : Cleanup) :
    (Chain.walk (releaseEntry cleans) h.live.length p (h, done)).map Prod.fst =
      releaseModules p h := by
  apply Chain.walk_map
  intro x s
  unfold releaseEntry Chain.release
  cases s.1.get? x with
  | none => rfl
  | some e => rfl

end Walks

/-! ## The invariant -/

/-- The two lists share no entry and have all there are, the keywords are distinct, and what is
loaded is registered. -/
structure Represents (table : Nat → Module) (s : State) (loaded registered : List Nat) : Prop where
  lists : Loaded s loaded registered
  nodup : (loaded ++ registered).Nodup
  all : ∀ p ∈ s.lists.entries.live, p ∈ loaded ++ registered
  keywords : ∀ p ∈ registered, ∀ q ∈ registered, ∀ e f, s.lists.entries.get? p = some e →
    s.lists.entries.get? q = some f → (table e.module).keyword = (table f.module).keyword → p = q
  known : ∀ m ∈ modulesOf s.lists.entries loaded, m ∈ modulesOf s.lists.entries registered

section Invariant
variable {table : Nat → Module} {s t : State} {loaded registered : List Nat}

theorem start_represents (table : Nat → Module) : Represents table start [] [] := by
  refine ⟨⟨rfl, rfl, List.nodup_nil, ?_, ?_⟩, List.nodup_nil, ?_, ?_, ?_⟩
  · intro m
    exact Iff.rfl
  all_goals simp [start, modulesOf]

theorem Represents.rounds (h : Represents table s loaded registered) :
    registered.length ≤ s.lists.entries.live.length :=
  List.Nodup.length_le_of_subset (List.nodup_append.mp h.nodup).2.1 h.lists.registeredList.live

/-- What the search finds is registered under the name. -/
theorem Represents.find_cases (h : Represents table s loaded registered) (name : List UInt8) :
    (findEntry table name s.lists.entries s.lists.entries.live.length s.lists.registeredModules =
        some none ∧ ∀ m ∈ modulesOf s.lists.entries registered, (table m).keyword ≠ name) ∨
      ∃ ptr ∈ registered, ∃ entry, s.lists.entries.get? ptr = some entry ∧
        (table entry.module).keyword = name ∧
        findEntry table name s.lists.entries s.lists.entries.live.length
          s.lists.registeredModules = some (some ptr) := by
  rw [findEntry_eq name h.lists.registeredList h.rounds]
  cases hfind : registered.find? fun x =>
      (moduleOf s.lists.entries x).any fun m => (table m).keyword = name with
  | none =>
    refine Or.inl ⟨rfl, ?_⟩
    intro m hm hname
    obtain ⟨x, hx, e, he, rfl⟩ := mem_modulesOf.mp hm
    have hno := List.find?_eq_none.mp hfind x hx
    rw [moduleOf_eq he, Option.any_some, decide_eq_true hname] at hno
    exact hno rfl
  | some ptr =>
    have hptr := List.mem_of_find?_eq_some hfind
    obtain ⟨entry, hentry⟩ :=
      (s.lists.entries.mem_live_iff ptr).mp (h.lists.registeredList.live ptr hptr)
    have hname := List.find?_some hfind
    rw [moduleOf_eq hentry, Option.any_some] at hname
    exact Or.inr ⟨ptr, hptr, entry, hentry, of_decide_eq_true hname, rfl⟩

theorem Represents.live (h : Represents table s loaded registered) {x : Nat}
    (hx : x ∈ loaded ++ registered) : x ∈ s.lists.entries.live := by
  rcases List.mem_append.mp hx with hx | hx
  · exact h.lists.loadedList.live x hx
  · exact h.lists.registeredList.live x hx

theorem Represents.fresh (h : Represents table s loaded registered) {malloc : Nat}
    (fresh : malloc ∉ s.lists.entries.live) : malloc ∉ loaded ∧ malloc ∉ registered :=
  ⟨fun hm => fresh (h.lists.loadedList.live malloc hm),
    fun hm => fresh (h.lists.registeredList.live malloc hm)⟩

/-! ## A module is registered -/

section Registering
variable {module malloc : Nat}

theorem get?_registered {l : Lists} (module : Nat) (fresh : malloc ∉ l.entries.live) (q : Nat) :
    (eventloopRegisterModule module malloc l).entries.get? q =
      if q = malloc then some ⟨module, false, l.registeredModules⟩ else l.entries.get? q :=
  Heap.get?_alloc fresh _ q

/-- The modules of the entries there were are the same. -/
theorem Represents.modulesOf_registered (h : Represents table s loaded registered) (module : Nat)
    (fresh : malloc ∉ s.lists.entries.live) {xs : List Nat} (hxs : ∀ x ∈ xs, x ∈ loaded ++ registered) :
    modulesOf (eventloopRegisterModule module malloc s.lists).entries xs =
      modulesOf s.lists.entries xs := by
  apply modulesOf_congr
  intro x hx
  have hne : x ≠ malloc := fun heq => fresh (heq ▸ h.live (hxs x hx))
  unfold moduleOf
  rw [get?_registered module fresh, if_neg hne]

/-- A module with a new keyword is not loaded, and so its flag is not set. -/
theorem Represents.register_flags (h : Represents table s loaded registered)
    (fresh : malloc ∉ s.lists.entries.live)
    (hnew : ∀ m ∈ modulesOf s.lists.entries registered,
      (table m).keyword ≠ (table module).keyword) :
    ∀ p ∈ loaded ++ malloc :: registered, ∀ e,
      (eventloopRegisterModule module malloc s.lists).entries.get? p = some e →
        (e.isLoaded = true ↔ e.module ∈ modulesOf s.lists.entries loaded) := by
  intro p hp e he
  rw [get?_registered module fresh] at he
  by_cases hpm : p = malloc
  · rw [if_pos hpm] at he
    cases he
    refine iff_of_false Bool.false_ne_true ?_
    intro hm
    exact hnew module (h.known module hm) rfl
  · rw [if_neg hpm] at he
    refine h.lists.flags p ?_ e he
    rcases List.mem_append.mp hp with hp | hp
    · exact List.mem_append_left _ hp
    · exact List.mem_append_right _ (List.mem_of_ne_of_mem hpm hp)

theorem Represents.register_keywords (h : Represents table s loaded registered)
    (fresh : malloc ∉ s.lists.entries.live)
    (hnew : ∀ m ∈ modulesOf s.lists.entries registered,
      (table m).keyword ≠ (table module).keyword) :
    ∀ p ∈ malloc :: registered, ∀ q ∈ malloc :: registered, ∀ e f,
      (eventloopRegisterModule module malloc s.lists).entries.get? p = some e →
      (eventloopRegisterModule module malloc s.lists).entries.get? q = some f →
        (table e.module).keyword = (table f.module).keyword → p = q := by
  have hother : ∀ p ∈ registered, ∀ e, s.lists.entries.get? p = some e →
      (table e.module).keyword ≠ (table module).keyword := by
    intro p hp e he
    exact hnew e.module (mem_modulesOf.mpr ⟨p, hp, e, he, rfl⟩)
  intro p hp q hq e f he hf hname
  rw [get?_registered module fresh] at he hf
  by_cases hpm : p = malloc <;> by_cases hqm : q = malloc
  · rw [hpm, hqm]
  · rw [if_pos hpm] at he
    rw [if_neg hqm] at hf
    cases he
    exact absurd hname.symm (hother q (List.mem_of_ne_of_mem hqm hq) f hf)
  · rw [if_neg hpm] at he
    rw [if_pos hqm] at hf
    cases hf
    exact absurd hname (hother p (List.mem_of_ne_of_mem hpm hp) e he)
  · rw [if_neg hpm] at he
    rw [if_neg hqm] at hf
    exact h.keywords p (List.mem_of_ne_of_mem hpm hp) q (List.mem_of_ne_of_mem hqm hq) e f he hf
      hname

/-- A new entry is put in front of the registered ones. -/
theorem Represents.register (h : Represents table s loaded registered)
    (fresh : malloc ∉ s.lists.entries.live)
    (hnew : ∀ m ∈ modulesOf s.lists.entries registered,
      (table m).keyword ≠ (table module).keyword) :
    Represents table { s with lists := eventloopRegisterModule module malloc s.lists } loaded
      (malloc :: registered) := by
  have hloaded := h.modulesOf_registered module fresh fun x hx => List.mem_append_left _ hx
  have hregistered := h.modulesOf_registered module fresh fun x hx => List.mem_append_right _ hx
  have hself : modulesOf (eventloopRegisterModule module malloc s.lists).entries
      (malloc :: registered) = module :: modulesOf s.lists.entries registered := by
    rw [modulesOf_cons (by rw [get?_registered module fresh, if_pos rfl]), hregistered]
  constructor
  · refine ⟨h.lists.loadedList.alloc fresh _, h.lists.registeredList.push fresh rfl, ?_, ?_, ?_⟩
    · exact hloaded.symm ▸ h.lists.once
    · exact hloaded.symm ▸ h.lists.succeeded
    · exact hloaded.symm ▸ h.register_flags fresh hnew
  · have hperm : (malloc :: (loaded ++ registered)).Perm (loaded ++ malloc :: registered) :=
      List.perm_middle.symm
    refine hperm.nodup (List.nodup_cons.mpr ⟨?_, h.nodup⟩)
    rw [List.mem_append, not_or]
    exact h.fresh fresh
  · intro p hp
    simp only [eventloopRegisterModule] at hp
    rw [Heap.live_alloc fresh] at hp
    apply List.perm_middle.mem_iff.mpr
    rcases List.mem_cons.mp hp with rfl | hp
    · exact List.mem_cons_self
    · exact List.mem_cons_of_mem _ (h.all p hp)
  · exact h.register_keywords fresh hnew
  · intro m hm
    simp only at hm ⊢
    rw [hloaded] at hm
    rw [hself]
    exact List.mem_cons_of_mem _ (h.known m hm)

end Registering

/-! ## A module is loaded -/

/-- A module that is loaded already stays so. -/
theorem Represents.again (h : Represents table s loaded registered) {m : Nat}
    (hm : m ∈ modulesOf s.lists.entries loaded) :
    Represents table { s with succeeded := m :: s.succeeded } loaded registered := by
  refine ⟨⟨h.lists.loadedList, h.lists.registeredList, h.lists.once, ?_, h.lists.flags⟩,
    h.nodup, h.all, h.keywords, h.known⟩
  intro n
  rw [h.lists.succeeded n, List.mem_cons]
  refine ⟨Or.inr, ?_⟩
  rintro (rfl | hn)
  · exact (h.lists.succeeded n).mp hm
  · exact hn

def markLoaded (e : ModuleEntry) : ModuleEntry := { e with isLoaded := true }

/-- The lists with a loaded entry for the module of `ptr`. -/
def withLoaded (ptr malloc module : Nat) (l : Lists) : Lists :=
  { l with
    entries := (l.entries.alloc malloc ⟨module, true, l.loadedModules⟩).modify ptr markLoaded
    loadedModules := some malloc }

/-- What the entries are after a module has been loaded. -/
theorem get?_withLoaded {ptr malloc : Nat} {l : Lists} (module : Nat) (fresh : malloc ∉ l.entries.live)
    (hptr : ptr ∈ l.entries.live) (q : Nat) :
    (withLoaded ptr malloc module l).entries.get? q =
      if q = malloc then some ⟨module, true, l.loadedModules⟩
      else if q = ptr then (l.entries.get? q).map markLoaded else l.entries.get? q := by
  have hne : malloc ≠ ptr := fun heq => fresh (heq ▸ hptr)
  unfold withLoaded
  simp only
  rw [Heap.get?_modify, Heap.get?_alloc fresh]
  by_cases hq : q = malloc
  · rw [if_pos hq, if_pos hq, if_neg (hq ▸ hne)]
  · rw [if_neg hq, if_neg hq]

section Loading
variable {ptr malloc : Nat} {entry : ModuleEntry}

/-- The entries there were have their modules, one of them with its flag set. -/
theorem Represents.moduleOf_withLoaded (h : Represents table s loaded registered) (module : Nat)
    (fresh : malloc ∉ s.lists.entries.live) (hptr : ptr ∈ registered) {x : Nat} (hx : x ≠ malloc) :
    moduleOf (withLoaded ptr malloc module s.lists).entries x = moduleOf s.lists.entries x := by
  unfold moduleOf
  rw [get?_withLoaded module fresh (h.live (List.mem_append_right _ hptr)), if_neg hx]
  split
  · rw [Option.map_map]
    rfl
  · rfl

theorem Represents.modulesOf_withLoaded (h : Represents table s loaded registered) (module : Nat)
    (fresh : malloc ∉ s.lists.entries.live) (hptr : ptr ∈ registered) {xs : List Nat}
    (hxs : malloc ∉ xs) :
    modulesOf (withLoaded ptr malloc module s.lists).entries xs = modulesOf s.lists.entries xs := by
  apply modulesOf_congr
  intro x hx
  exact h.moduleOf_withLoaded module fresh hptr fun heq => hxs (heq ▸ hx)

theorem Represents.load_flags (h : Represents table s loaded registered)
    (fresh : malloc ∉ s.lists.entries.live) (hptr : ptr ∈ registered)
    (hentry : s.lists.entries.get? ptr = some entry) :
    ∀ p ∈ malloc :: loaded ++ registered, ∀ e,
      (withLoaded ptr malloc entry.module s.lists).entries.get? p = some e →
        (e.isLoaded = true ↔ e.module ∈ entry.module :: modulesOf s.lists.entries loaded) := by
  intro p hp e he
  rw [get?_withLoaded entry.module fresh (h.live (List.mem_append_right _ hptr))] at he
  by_cases hpm : p = malloc
  · rw [if_pos hpm] at he
    cases he
    exact iff_of_true rfl List.mem_cons_self
  · rw [if_neg hpm] at he
    have hp : p ∈ loaded ++ registered := List.mem_of_ne_of_mem hpm hp
    by_cases hpp : p = ptr
    · rw [if_pos hpp, hpp, hentry, Option.map_some, Option.some.injEq] at he
      rw [← he]
      exact iff_of_true rfl List.mem_cons_self
    · rw [if_neg hpp] at he
      rw [h.lists.flags p hp e he, List.mem_cons]
      refine ⟨Or.inr, ?_⟩
      rintro (heq | hm)
      · -- another entry of that module would be the registered one
        rcases List.mem_append.mp hp with hp | hp
        · exact mem_modulesOf.mpr ⟨p, hp, e, he, rfl⟩
        · exact absurd (h.keywords p hp ptr hptr e entry he hentry (by rw [heq])) hpp
      · exact hm

theorem Represents.load_keywords (h : Represents table s loaded registered) (module : Nat)
    (fresh : malloc ∉ s.lists.entries.live) (hptr : ptr ∈ registered) :
    ∀ p ∈ registered, ∀ q ∈ registered, ∀ e f,
      (withLoaded ptr malloc module s.lists).entries.get? p = some e →
      (withLoaded ptr malloc module s.lists).entries.get? q = some f →
        (table e.module).keyword = (table f.module).keyword → p = q := by
  have hsame : ∀ p ∈ registered, ∀ e, (withLoaded ptr malloc module s.lists).entries.get? p =
      some e → ∃ e', s.lists.entries.get? p = some e' ∧ e'.module = e.module := by
    intro p hp e he
    have hkept := h.moduleOf_withLoaded module fresh hptr fun heq => (h.fresh fresh).2 (heq ▸ hp)
    rw [moduleOf_eq he] at hkept
    exact Option.map_eq_some_iff.mp hkept.symm
  intro p hp q hq e f he hf hname
  obtain ⟨e', he', heq⟩ := hsame p hp e he
  obtain ⟨f', hf', hfq⟩ := hsame q hq f hf
  exact h.keywords p hp q hq e' f' he' hf' (by rw [heq, hfq, hname])

/-- The first successful `require` of a module puts an entry for it in front of the loaded ones. -/
theorem Represents.load (h : Represents table s loaded registered)
    (fresh : malloc ∉ s.lists.entries.live) (hptr : ptr ∈ registered)
    (hentry : s.lists.entries.get? ptr = some entry) (hflag : entry.isLoaded = false) :
    Represents table ⟨withLoaded ptr malloc entry.module s.lists, entry.module :: s.succeeded⟩
      (malloc :: loaded) registered := by
  obtain ⟨hl, hr⟩ := h.fresh fresh
  have hregistered := h.modulesOf_withLoaded entry.module fresh hptr hr
  have hloaded : modulesOf (withLoaded ptr malloc entry.module s.lists).entries (malloc :: loaded) =
      entry.module :: modulesOf s.lists.entries loaded := by
    have hlive := h.live (List.mem_append_right _ hptr)
    rw [modulesOf_cons (by rw [get?_withLoaded entry.module fresh hlive, if_pos rfl]),
      h.modulesOf_withLoaded entry.module fresh hptr hl]
  have hnot : entry.module ∉ modulesOf s.lists.entries loaded := by
    intro hm
    have := (h.lists.flags ptr (List.mem_append_right _ hptr) entry hentry).mpr hm
    rw [hflag] at this
    cases this
  have hmark : ∀ e : ModuleEntry, (markLoaded e).next = e.next := fun _ => rfl
  constructor
  · refine ⟨(h.lists.loadedList.push fresh rfl).modify ptr hmark,
      (h.lists.registeredList.alloc fresh _).modify ptr hmark, ?_, ?_, ?_⟩
    · rw [hloaded]
      exact List.nodup_cons.mpr ⟨hnot, h.lists.once⟩
    · intro m
      rw [hloaded, List.mem_cons, List.mem_cons, h.lists.succeeded m]
    · exact hloaded.symm ▸ h.load_flags fresh hptr hentry
  · rw [List.cons_append]
    refine List.nodup_cons.mpr ⟨?_, h.nodup⟩
    rw [List.mem_append, not_or]
    exact ⟨hl, hr⟩
  · intro p hp
    have hlives : (withLoaded ptr malloc entry.module s.lists).entries.live =
        malloc :: s.lists.entries.live := by
      unfold withLoaded
      rw [Heap.live_modify, Heap.live_alloc fresh]
    simp only at hp
    rw [hlives] at hp
    rcases List.mem_cons.mp hp with rfl | hp
    · exact List.mem_cons_self
    · exact List.mem_cons_of_mem _ (h.all p hp)
  · exact h.load_keywords entry.module fresh hptr
  · intro m hm
    simp only at hm ⊢
    rw [hloaded] at hm
    rw [hregistered]
    rcases List.mem_cons.mp hm with rfl | hm
    · exact mem_modulesOf.mpr ⟨ptr, hptr, entry, hentry, rfl⟩
    · exact h.known m hm

end Loading

/-! ## Every call -/

/-- What a `require` does, whatever it is called with. -/
theorem require_cases (h : Represents table s loaded registered) {malloc : Nat}
    (fresh : malloc ∉ s.lists.entries.live) (name : List UInt8) (initialised : Bool) :
    ∃ t r, step table s (.require name initialised malloc) = some (t, .required r) ∧
      ∃ loaded, Represents table t loaded registered := by
  simp only [step]
  rw [if_pos fresh]
  unfold eventloopNativeLoadModule
  rcases h.find_cases (CString.text name) with
    ⟨hfind, _⟩ | ⟨ptr, hptr, entry, hentry, _, hfind⟩
  · rw [hfind]
    exact ⟨_, _, rfl, loaded, h⟩
  · simp only [hfind, hentry, Option.bind_eq_bind, Option.bind_some]
    cases initialised with
    | false => exact ⟨_, _, rfl, loaded, h⟩
    | true =>
      cases hflag : entry.isLoaded with
      | true =>
        refine ⟨_, _, rfl, loaded, h.again ?_⟩
        exact (h.lists.flags ptr (List.mem_append_right _ hptr) entry hentry).mp hflag
      | false => exact ⟨_, _, rfl, malloc :: loaded, h.load fresh hptr hentry hflag⟩

/-- Both lists are released, and the modules that are loaded are cleaned up. -/
theorem clear_cases (h : Represents table s loaded registered) :
    ∃ k, step table s .clear = some (⟨⟨k, none, none⟩, []⟩, .cleared
        ⟨(modulesOf s.lists.entries loaded).filter fun m => (table m).cleanupFunc,
          loaded ++ registered⟩) ∧ k.live = [] := by
  obtain ⟨hl, hr, hapart⟩ := List.nodup_append.mp h.nodup
  obtain ⟨k, hk, hrest⟩ := walk_releaseEntry (fun m => (table m).cleanupFunc) h.lists.loadedList hl
    ⟨[], []⟩
  have hleads : Chain.Leads ModuleEntry.next k s.lists.registeredModules registered := by
    apply h.lists.registeredList.congr
    intro x hx
    rw [hrest x, if_neg fun hx' => hapart x hx' x hx rfl]
  obtain ⟨k', hk', hrest'⟩ := walk_releaseEntry (fun _ => false) hleads hr
    ⟨[] ++ (modulesOf s.lists.entries loaded).filter fun m => (table m).cleanupFunc, [] ++ loaded⟩
  simp only [List.nil_append, List.filter_false, List.append_nil] at hk hk'
  refine ⟨k', ?_, Chain.live_eq_nil fun q => ?_⟩
  · simp only [step, clearModules, bind, Except.bind, pure, Except.pure, hk, hk']
  · rw [hrest' q]
    split
    · rfl
    · next hq =>
      rw [hrest q]
      split
      · rfl
      · next hq' =>
        apply Chain.get?_of_live
        intro hlive
        rcases List.mem_append.mp (h.all q hlive) with hmem | hmem
        · exact hq' hmem
        · exact hq hmem

theorem calledOnce_filter {s : State} {loaded registered : List Nat} (h : Loaded s loaded registered)
    (func : Nat → Bool) :
    CalledOnce func s.succeeded ((modulesOf s.lists.entries loaded).filter func) := by
  refine ⟨h.once.filter _, ?_⟩
  intro m
  rw [List.mem_filter, h.succeeded m]

theorem Represents.polled (h : Represents table s loaded registered) :
    poll table s.lists.entries s.lists.entries.live.length s.lists.loadedModules =
      some ((modulesOf s.lists.entries loaded).filter fun m => (table m).eventloopFunc) :=
  poll_eq h.lists.loadedList
    (List.Nodup.length_le_of_subset (List.nodup_append.mp h.nodup).1 h.lists.loadedList.live)

/-- Every call keeps the two lists in step with what has been required. -/
theorem step_represents (h : Represents table s loaded registered) {call : Call} {o : Output}
    (hstep : step table s call = some (t, o)) :
    ∃ loaded registered, Represents table t loaded registered := by
  cases call with
  | register module malloc =>
    simp only [step] at hstep
    split at hstep
    · next hguard =>
      obtain ⟨fresh, hfind⟩ := hguard
      cases hstep
      rcases h.find_cases (table module).keyword with ⟨_, hnew⟩ | ⟨ptr, _, _, _, _, hfound⟩
      · exact ⟨loaded, malloc :: registered, h.register fresh hnew⟩
      · rw [hfound] at hfind
        cases hfind
    · cases hstep
  | require name initialised malloc =>
    by_cases fresh : malloc ∉ s.lists.entries.live
    · obtain ⟨u, r, hu, loaded, hrep⟩ := require_cases h fresh name initialised
      rw [hu] at hstep
      cases hstep
      exact ⟨loaded, registered, hrep⟩
    · simp only [step] at hstep
      rw [if_neg fresh] at hstep
      cases hstep
  | poll =>
    simp only [step, h.polled, Option.bind_eq_bind, Option.bind_some] at hstep
    cases hstep
    exact ⟨loaded, registered, h⟩
  | clear =>
    obtain ⟨k, hclear, hempty⟩ := clear_cases h
    rw [hclear] at hstep
    cases hstep
    refine ⟨[], [], ?_⟩
    rw [Chain.eq_empty_of_live hempty]
    exact start_represents table

theorem Represents.balanced (h : Represents table s loaded registered) : Balanced table s := by
  constructor
  · exact ⟨loaded, registered, h.lists⟩
  · intro name initialised malloc fresh
    obtain ⟨u, r, hu, _⟩ := require_cases h fresh name initialised
    exact ⟨u, r, hu⟩
  · refine ⟨_, ?_, calledOnce_filter h.lists _⟩
    simp only [step, h.polled, Option.bind_eq_bind, Option.bind_some]
  · obtain ⟨k, hclear, hempty⟩ := clear_cases h
    refine ⟨_, _, hclear, calledOnce_filter h.lists _, h.nodup, ?_, hempty, rfl, rfl⟩
    intro p
    refine ⟨?_, h.all p⟩
    intro hp
    rcases List.mem_append.mp hp with hp | hp
    · exact h.lists.loadedList.live p hp
    · exact h.lists.registeredList.live p hp

end Invariant

/-- In every run of registrations, `require` calls, rounds of the loop and clean-ups, and so over
any number of restarts, the two lists are balanced. -/
theorem module_loading_balanced (table : Nat → Module) (calls : List Call) (s : State)
    (outputs : List Output) (hrun : Runs.run (step table) start calls = some (s, outputs)) :
    Balanced table s := by
  obtain ⟨loaded, registered, h⟩ : ∃ loaded registered, Represents table s loaded registered := by
    apply Runs.run_history
      (P := fun _ _ s => ∃ loaded registered, Represents table s loaded registered) ?_
      ⟨[], [], start_represents table⟩ hrun
    intro _ _ _ _ _ _ h hstep
    obtain ⟨loaded, registered, h⟩ := h
    exact step_represents h hstep
  exact h.balanced

/-- A module with both functions and one without. -/
def modules (m : Nat) : Module :=
  if m = 0 then ⟨CString.ascii "gpio", true, true⟩ else ⟨CString.ascii "lwm2m", false, false⟩

def requires : List Call :=
  [.register 0 10, .register 1 11, .require (CString.ascii "gpio") true 12,
    .require (CString.ascii "lwm2m") false 13, .require (CString.ascii "gpio\x00") true 13,
    .require (CString.ascii "fs") true 13, .poll, .clear, .register 0 10, .poll]

theorem two_restarts_balanced :
    ∃ s outputs, Runs.run (step modules) start requires = some (s, outputs) ∧
      outputs = [.quiet, .quiet, .required ⟨some 0, none⟩,
        .required ⟨some 1, some "Module initialization failed"⟩, .required ⟨some 0, none⟩,
        .required ⟨none, some "Module not found"⟩, .polled [0], .cleared ⟨[0], [12, 11, 10]⟩,
        .quiet, .polled []] ∧ Balanced modules s := by
  obtain ⟨s, outputs, hrun, houtputs⟩ : ∃ s outputs,
      Runs.run (step modules) start requires = some (s, outputs) ∧
        decide (outputs = [.quiet, .quiet, .required ⟨some 0, none⟩,
          .required ⟨some 1, some "Module initialization failed"⟩, .required ⟨some 0, none⟩,
          .required ⟨none, some "Module not found"⟩, .polled [0], .cleared ⟨[0], [12, 11, 10]⟩,
          .quiet, .polled []]) = true :=
    Runs.run_evaluated (by decide +kernel)
  exact ⟨s, outputs, hrun, of_decide_eq_true houtputs,
    module_loading_balanced modules requires s outputs hrun⟩

end JsEmbeddedPlatform.ModuleLoading
