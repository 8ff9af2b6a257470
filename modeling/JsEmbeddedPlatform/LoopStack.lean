import JsEmbeddedPlatform.Shared.Runs
import JsEmbeddedPlatform.Shared.ValueStack
import JsEmbeddedPlatform.Timers

/-!
# The value stack of the event loop

Each round of the loop looks the callback of an event up and calls it, by calls that push values
on the stack of the context and take others off. The completion handlers and the native
functions push and pop on the same context. A call that throws, that names a value that is
not there, or that pushes a value for which nothing is reserved is `none` here.
-/

set_option autoImplicit false

namespace JsEmbeddedPlatform.LoopStack

open Timers (uint64ToDouble)

/-! ## The context -/

/-- `callbacks` is the object that the stash has under `EVENTLOOP_CALLBACKS_OBJECT_NAME`. -/
inductive Value where
  | undefined
  | number (n : Nat)
  | text (s : String)
  | stash
  | callbacks
  | objectPrototype
  | function (f : Nat)
  | other (n : Nat)
deriving DecidableEq, Repr

/-- A name that is a number in its canonical form is `numeric`. -/
inductive Key where
  | numeric (n : Nat)
  | named (s : String)
deriving DecidableEq, Repr

def Value.key : Value → Option Key
  | .number n => some (.numeric n)
  | .text s => some (.named s)
  | _ => none

def Value.isObject : Value → Bool
  | .undefined | .number _ | .text _ => false
  | _ => true

def Value.isFunction : Value → Bool
  | .function _ => true
  | _ => false

/-- The frame of the function that runs, its top first, and the number of values up to
`valstack_end`; the own properties and the prototypes of the objects, and
`_callback_sequence_id`. -/
structure Ctx where
  frame : List Value
  space : Nat
  props : Value → Key → Option Value
  prototype : Value → Option Value
  sequenceId : Nat

/-- `DUK_API_ENTRY_STACK` -/
def apiEntryStack : Nat := 64

/-- `DUK_HOBJECT_PROTOTYPE_CHAIN_SANITY` -/
def prototypeChainSanity : Nat := 10000

/-- The loop of `duk_hobject_getprop`, which throws at the end of `sanity`. No property has a
getter here, and no object is a proxy. -/
def Ctx.search (c : Ctx) (key : Key) : Nat → Value → Option (Option Value)
  | sanity, obj =>
    match c.props obj key, sanity with
    | some value, _ => some (some value)
    | none, 0 => none
    | none, sanity + 1 =>
      match c.prototype obj with
      | none => some none
      | some parent => c.search key sanity parent

def Ctx.lookup (c : Ctx) (obj : Value) (key : Key) : Option (Option Value) :=
  c.search key prototypeChainSanity obj

def Ctx.withPrototype (c : Ctx) (obj : Value) (parent : Option Value) : Ctx :=
  { c with prototype := Function.update c.prototype obj parent }

def Ctx.withProp (c : Ctx) (obj : Value) (key : Key) (value : Option Value) : Ctx :=
  { c with props := fun o k => if o = obj ∧ k = key then value else c.props o k }

/-! ## The calls -/

/-- With `DUK_USE_VALSTACK_UNSAFE` nothing checks that there is room; a push without is none of
the stack's. -/
def Ctx.push (v : Value) (c : Ctx) : Option Ctx :=
  if c.frame.length < c.space then some { c with frame := v :: c.frame } else none

def Ctx.popN (count : Nat) (c : Ctx) : Option Ctx := do
  some { c with frame := ← ValueStack.popN c.frame count }

def Ctx.getTop (c : Ctx) : Nat := c.frame.length

/-- The object at an index. -/
def Ctx.requireObject (idx : Int) (c : Ctx) : Option Value := do
  let obj ← ValueStack.get? c.frame idx
  if obj.isObject then some obj else none

/-- `duk_get_prop`: the value takes the place of the key. It says whether there is one. -/
def Ctx.getProp (objIdx : Int) (c : Ctx) : Option (Bool × Ctx) := do
  let obj ← c.requireObject objIdx
  let key ← (← ValueStack.get? c.frame (-1)).key
  let below ← c.popN 1
  match ← c.lookup obj key with
  | some v => some (true, ← below.push v)
  | none => some (false, ← below.push .undefined)

def Ctx.getPropString (objIdx : Int) (name : String) (c : Ctx) : Option Ctx := do
  let obj ← c.requireObject objIdx
  c.push ((← c.lookup obj (.named name)).getD .undefined)

def Ctx.putProp (objIdx : Int) (c : Ctx) : Option Ctx := do
  let obj ← c.requireObject objIdx
  let key ← (← ValueStack.get? c.frame (-2)).key
  let value ← ValueStack.get? c.frame (-1)
  (c.withProp obj key (some value)).popN 2

def Ctx.putPropString (objIdx : Int) (name : String) (c : Ctx) : Option Ctx := do
  let obj ← c.requireObject objIdx
  let value ← ValueStack.get? c.frame (-1)
  (c.withProp obj (.named name) (some value)).popN 1

def Ctx.delProp (objIdx : Int) (c : Ctx) : Option Ctx := do
  let obj ← c.requireObject objIdx
  let key ← (← ValueStack.get? c.frame (-1)).key
  (c.withProp obj key none).popN 1

def Ctx.dup (fromIdx : Int) (c : Ctx) : Option Ctx := do
  c.push (← ValueStack.get? c.frame fromIdx)

def Ctx.requireFunction (idx : Int) (c : Ctx) : Option Unit := do
  let v ← ValueStack.get? c.frame idx
  if v.isFunction then some () else none

/-! ## The functions of `src/eventloop.c` -/

/-- `EVENTLOOP_CALLBACKS_OBJECT_NAME` -/
def callbacksObjectName : String := "_callbacks"

def eventloopCallbackCreateFromContext (fromIdx : Int) (c : Ctx) : Option Ctx := do
  c.requireFunction fromIdx
  let id := c.sequenceId
  let c := { c with sequenceId := (id + 1) % 2 ^ 64 }
  let c ← c.push .stash
  let c ← c.getPropString (-1) callbacksObjectName
  let c ← c.push (.number (uint64ToDouble id))
  let c ← c.dup fromIdx
  let c ← c.putProp (-3)
  let c ← c.popN 1
  c.popN 1

def eventloopCallbackDestroy (id : Nat) (c : Ctx) : Option Ctx := do
  let c ← c.push .stash
  let c ← c.getPropString (-1) callbacksObjectName
  let c ← c.push (.number (uint64ToDouble id))
  let c ← c.delProp (-2)
  c.popN 2

/-- A function has a frame of its own, with its arguments, the last one on top, and room for
`DUK_API_ENTRY_STACK` values above them. -/
def Ctx.enter (c : Ctx) (args : List Value) : Ctx :=
  { c with frame := args, space := args.length + apiEntryStack }

def inFrame (args : List Value) (body : Ctx → Option Ctx) (c : Ctx) : Option Ctx := do
  let after ← body (c.enter args)
  some { after with frame := c.frame, space := c.space }

/-- What JavaScript does that matters here. `setTimer` is `setTimeout` or `setInterval`, which throw
before they change anything when the delay is no number or `callee` no function, and may throw
afterwards when the timer does not start. `clearTimer` is what a `clearTimeout` comes to when it
destroys a callback, and `define` and `setPrototype` any other change of an object. -/
inductive JsAction where
  | setTimer (callee : Value) (isUint : Bool)
  | clearTimer (id : Nat)
  | define (obj : Value) (key : Key) (value : Option Value)
  | setPrototype (obj : Value) (parent : Option Value)
deriving DecidableEq, Repr

def runAction (c : Ctx) : JsAction → Option Ctx
  | .setTimer callee isUint =>
    if isUint = false ∨ callee.isFunction = false then some c
    else inFrame [.number 0, callee] (eventloopCallbackCreateFromContext 0) c
  | .clearTimer id => inFrame [.other 0] (eventloopCallbackDestroy id) c
  | .define obj key value => some (c.withProp obj key value)
  | .setPrototype obj parent => some (c.withPrototype obj parent)

def runActions (c : Ctx) (actions : List JsAction) : Option Ctx := actions.foldlM runAction c

/-- A callback that is called: what it does, and the value that it returns or throws. -/
structure Callback where
  actions : List JsAction
  throws : Bool
  result : Value
deriving DecidableEq, Repr

/-- `duk_pcall`: the function and its arguments give way to what is returned or thrown. It tells
what has been called, and whether it has returned. -/
def Ctx.pcall (nargs : Nat) (callback : Callback) (c : Ctx) :
    Option ((Value × List Value) × Bool × Ctx) := do
  let below ← c.popN (nargs + 1)
  let func ← ValueStack.get? c.frame (-(nargs + 1 : Nat))
  let after ← inFrame [] (fun c => runActions c callback.actions) c
  let after ← { after with frame := below.frame }.push callback.result
  some ((func, (c.frame.take nargs).reverse), !callback.throws, after)

/-! ## The completion handler -/

/-- `_timer_callback_completion` is called with the copy of a callback: whether `user_data` is set,
the item is one of an interval, the timer is deleted (always on unix), and the id that is
destroyed with it. -/
structure Completion where
  userData : Bool
  repeats : Bool
  deleted : Bool
  id : Nat
deriving DecidableEq, Repr

def timerCleanup (o : Completion) (c : Ctx) : Option Ctx :=
  if o.deleted then eventloopCallbackDestroy o.id c else some c

def timerCallbackCompletion (o : Completion) (c : Ctx) : Option Ctx :=
  if o.userData = false then some c
  else if o.repeats = false then timerCleanup o c
  else some c

/-- The handler is called when it is not NULL. -/
def complete (completion : Option Completion) (c : Ctx) : Option Ctx :=
  match completion with
  | none => some c
  | some o => timerCallbackCompletion o c

/-! ## The loop -/

/-- What comes out of the queue: `argHandler` has the values that the handler pushes when it is not
NULL, and `completion` what its handler meets when it is not. -/
structure Event where
  id : Nat
  argHandler : Option (List Value)
  callback : Callback
  completion : Option Completion
deriving DecidableEq, Repr

/-- The object in which the id is looked up, and what is called with which values. -/
structure Output where
  object : Value
  called : Option (Value × List Value)
deriving DecidableEq, Repr

/-- The branch of `if (duk_get_prop(ctx, -2))`, with what is called. -/
def callFound (e : Event) (c : Ctx) : Option ((Value × List Value) × Ctx) := do
  c.requireFunction (-1)
  let funcIdx := c.getTop
  let c ← (e.argHandler.getD []).foldlM (fun c v => c.push v) c
  let funcIdxArgs := c.getTop
  let (called, _, c) ← c.pcall (funcIdxArgs - funcIdx) e.callback
  some (called, c)

/-- From the push of the id to the pop of what it has come to. -/
def executeCallback (e : Event) (c : Ctx) : Option (Option (Value × List Value) × Ctx) := do
  let c ← c.push (.number (uint64ToDouble e.id))
  let (found, c) ← c.getProp (-2)
  if found then do
    let (called, c) ← callFound e c
    some (some called, ← c.popN 1)
  else some (none, ← c.popN 1)

/-- One round of `while (1)`, from the received event on. -/
def iteration (c : Ctx) (e : Event) : Option (Ctx × Output) := do
  let object ← (← c.push (.number (uint64ToDouble e.id))).requireObject (-2)
  let (called, c) ← executeCallback e c
  let c ← complete e.completion c
  some (c, ⟨object, called⟩)

/-- The functions that are put into the global object. -/
def natives : List String :=
  ["ledOn", "ledOff", "setTimeout", "clearTimeout", "setInterval", "clearInterval", "require"]

/-- `duk_put_global_string` -/
def Ctx.putGlobalString (name : String) (c : Ctx) : Option Ctx := do
  let value ← ValueStack.get? c.frame (-1)
  (c.withProp (.other 0) (.named name) (some value)).popN 1

/-- The stash is a bare object, and all others but one inherit from `Object.prototype`. -/
def firstPrototype (obj : Value) : Option Value :=
  if obj.isObject = true ∧ obj ≠ .stash ∧ obj ≠ .objectPrototype then some .objectPrototype
  else none

/-- `duk_create_heap` -/
def createHeap : Ctx := ⟨[], apiEntryStack, fun _ _ => none, firstPrototype, 0⟩

/-- From the heap to the program. -/
def setup : Option Ctx := do
  let c ← createHeap.push .stash
  let c ← c.push .callbacks
  let c ← c.putPropString (-2) callbacksObjectName
  let c ← c.popN 1
  let c ← c.push (.other 0)
  let c ← c.push (.other 1)
  natives.foldlM (fun c name => do (← c.push (.function 0)).putGlobalString name) c

/-- From `duk_create_heap` to the loop. `program` is what the code does, which ends without an
error, and `result` its value. -/
def eventloop (program : List JsAction) (result : Value) : Option Ctx := do
  let c ← setup
  let c ← inFrame [] (fun c => runActions c program) c
  let c ← c.push result
  let c ← c.popN 1
  let c ← c.push .stash
  c.getPropString (-1) callbacksObjectName

/-! ## Balance -/

/-- What JavaScript can name: it has no reference to the stash and to the callbacks object. -/
def JsAction.Allowed : JsAction → Prop
  | .define obj _ _ => obj ≠ .stash ∧ obj ≠ .callbacks
  | .setPrototype obj _ => obj ≠ .stash ∧ obj ≠ .callbacks
  | _ => True

/-- From `Object.prototype` on, no numeric property is found. -/
def Ctx.InheritsNone (c : Ctx) : Prop :=
  ∀ n, c.search (.numeric n) (prototypeChainSanity - 1) .objectPrototype = some none

/-- However far JavaScript gets, the callbacks object inherits no numeric property. -/
def Harmless : Ctx → List JsAction → Prop
  | _, [] => True
  | c, a :: actions => a.Allowed ∧ ∀ t, runAction c a = some t → t.InheritsNone ∧ Harmless t actions

/-- What is reserved, less the four values below the function and the function. -/
def argumentLimit : Nat := apiEntryStack - 5

def Permitted (c : Ctx) (e : Event) : Prop :=
  (e.argHandler.getD []).length ≤ argumentLimit ∧ Harmless (c.enter []) e.callback.actions

/-- The stack is what it was, with the callbacks object on top. The id is looked up in that object,
and what is found there is called with the values of the argument handler. -/
structure Balanced (c : Ctx) (e : Event) (t : Ctx) (o : Output) : Prop where
  frame : t.frame = c.frame
  top : t.frame.head? = some .callbacks
  object : o.object = .callbacks
  called : o.called = (c.props .callbacks (.numeric (uint64ToDouble e.id))).map
    fun func => (func, e.argHandler.getD [])

/-! ## The objects -/

/-- What the loop relies on and JavaScript cannot change: the stash has the callbacks object, whose
numeric properties are functions. -/
structure Own (c : Ctx) : Prop where
  stash : c.props .stash (.named callbacksObjectName) = some .callbacks
  functions : ∀ n v, c.props .callbacks (.numeric n) = some v → v.isFunction = true
  parent : c.prototype .callbacks = some .objectPrototype

structure Kept (c : Ctx) : Prop extends Own c where
  inherited : c.InheritsNone

section Objects
variable {c : Ctx}

theorem props_withProp (obj o : Value) (key k : Key) (value : Option Value) :
    (c.withProp obj key value).props o k = if o = obj ∧ k = key then value else c.props o k :=
  rfl

theorem search_zero (key : Key) (obj : Value) :
    c.search key 0 obj = (c.props obj key).map some := by
  unfold Ctx.search
  cases c.props obj key <;> rfl

theorem search_succ (key : Key) (sanity : Nat) (obj : Value) :
    c.search key (sanity + 1) obj = match c.props obj key with
      | some value => some (some value)
      | none => match c.prototype obj with
        | none => some none
        | some parent => c.search key sanity parent := by
  conv => lhs; unfold Ctx.search
  cases c.props obj key <;> rfl

theorem search_own {obj v : Value} {key : Key} (h : c.props obj key = some v) (sanity : Nat) :
    c.search key sanity obj = some (some v) := by
  cases sanity with
  | zero => rw [search_zero, h]; rfl
  | succ sanity => rw [search_succ, h]

theorem search_congr {d : Ctx} (hprops : d.props = c.props) (hparents : d.prototype = c.prototype)
    (key : Key) (sanity : Nat) (obj : Value) :
    d.search key sanity obj = c.search key sanity obj := by
  induction sanity generalizing obj with
  | zero => rw [search_zero, search_zero, hprops]
  | succ sanity ih =>
    rw [search_succ, search_succ, hprops, hparents]
    simp only [ih]

/-- What is not found is not found either in a heap with the same prototypes and no more properties
of that key. -/
theorem search_none {d : Ctx} (hparents : d.prototype = c.prototype) {key : Key}
    (hprops : ∀ obj, c.props obj key = none → d.props obj key = none) {sanity : Nat} {start : Value}
    (h : c.search key sanity start = some none) : d.search key sanity start = some none := by
  induction sanity generalizing start with
  | zero =>
    rw [search_zero] at h
    cases hp : c.props start key <;> simp [hp] at h
  | succ sanity ih =>
    rw [search_succ] at h ⊢
    rw [hparents]
    cases hp : c.props start key with
    | some v => simp [hp] at h
    | none =>
      rw [hprops start hp]
      simp only [hp] at h
      cases hparent : c.prototype start with
      | none => rfl
      | some parent =>
        simp only [hparent] at h
        exact ih h

theorem Own.congr {d : Ctx} (h : Own c) (hprops : d.props = c.props)
    (hparents : d.prototype = c.prototype) : Own d := by
  refine ⟨?_, ?_, ?_⟩
  · rw [hprops]
    exact h.stash
  · rw [hprops]
    exact h.functions
  · rw [hparents]
    exact h.parent

theorem Kept.congr {d : Ctx} (h : Kept c) (hprops : d.props = c.props)
    (hparents : d.prototype = c.prototype) : Kept d := by
  refine ⟨h.toOwn.congr hprops hparents, ?_⟩
  intro n
  rw [search_congr hprops hparents]
  exact h.inherited n

/-- A callback is put into the callbacks object, or taken out of it. -/
theorem Own.withCallback (h : Own c) (id : Nat) (value : Option Value)
    (hvalue : ∀ v ∈ value, v.isFunction = true) :
    Own (c.withProp .callbacks (.numeric (uint64ToDouble id)) value) := by
  refine ⟨?_, ?_, h.parent⟩
  · rw [props_withProp, if_neg (by simp)]
    exact h.stash
  · intro n v hv
    rw [props_withProp] at hv
    split at hv
    · exact hvalue v hv
    · exact h.functions n v hv

theorem Kept.withoutCallback (h : Kept c) (id : Nat) :
    Kept (c.withProp .callbacks (.numeric (uint64ToDouble id)) none) := by
  refine ⟨h.toOwn.withCallback id none (by simp), ?_⟩
  intro n
  refine search_none ?_ ?_ (h.inherited n)
  · rfl
  · intro obj hp
    rw [props_withProp, hp, ite_self]

theorem Own.define (h : Own c) {obj : Value} {key : Key} {value : Option Value}
    (hallowed : (JsAction.define obj key value).Allowed) : Own (c.withProp obj key value) := by
  obtain ⟨hstash, hcallbacks⟩ := hallowed
  refine ⟨?_, ?_, h.parent⟩
  · rw [props_withProp, if_neg fun heq => hstash heq.1.symm]
    exact h.stash
  · intro n v hv
    rw [props_withProp, if_neg fun heq => hcallbacks heq.1.symm] at hv
    exact h.functions n v hv

theorem Own.setPrototype (h : Own c) {obj : Value} {parent : Option Value}
    (hallowed : (JsAction.setPrototype obj parent).Allowed) :
    Own (c.withPrototype obj parent) := by
  refine ⟨h.stash, h.functions, ?_⟩
  exact (Function.update_of_ne (fun heq => hallowed.2 heq.symm) parent c.prototype).trans h.parent

/-- What is looked up in the callbacks object is found there or nowhere. -/
theorem Kept.lookup (h : Kept c) (n : Nat) :
    c.lookup .callbacks (.numeric n) = some (c.props .callbacks (.numeric n)) := by
  have hnext : c.lookup .callbacks (.numeric n) =
      c.search (.numeric n) (prototypeChainSanity - 1 + 1) .callbacks := rfl
  rw [hnext, search_succ, h.parent]
  cases c.props .callbacks (.numeric n) with
  | some v => rfl
  | none => exact h.inherited n

theorem Own.lookup_stash (h : Own c) :
    c.lookup .stash (.named callbacksObjectName) = some (some .callbacks) :=
  search_own h.stash _

end Objects

/-! ## What the functions do to the stack -/

/-- The frame is what it was. -/
structure Restored (c t : Ctx) : Prop where
  frame : t.frame = c.frame
  space : t.space = c.space

section Calls
variable {c : Ctx} {rest : List Value}

theorem push_eq (v : Value) (h : c.frame.length < c.space) :
    c.push v = some { c with frame := v :: c.frame } := if_pos h

theorem getPropString_stash (h : Own c) (hframe : c.frame = .stash :: rest)
    (hroom : c.frame.length < c.space) :
    c.getPropString (-1) callbacksObjectName =
      some { c with frame := .callbacks :: c.frame } := by
  have hobject : c.requireObject (-1) = some .stash := by
    simp [Ctx.requireObject, hframe, Value.isObject]
  simp only [Ctx.getPropString, hobject, h.lookup_stash, Option.bind_eq_bind, Option.bind_some,
    Option.getD_some]
  exact push_eq .callbacks hroom

/-- The callbacks object has lost the id, and all that was pushed is popped again. -/
theorem destroy_eq (h : Own c) (hroom : c.frame.length + 3 ≤ c.space) (id : Nat) :
    eventloopCallbackDestroy id c =
      some (c.withProp .callbacks (.numeric (uint64ToDouble id)) none) := by
  have hstash := getPropString_stash (c := { c with frame := .stash :: c.frame })
    (h.congr rfl rfl) rfl (by simp; omega)
  have hnumber := push_eq (c := { c with frame := .callbacks :: .stash :: c.frame })
    (.number (uint64ToDouble id)) (by simp; omega)
  unfold eventloopCallbackDestroy
  simp only [push_eq (c := c) .stash (by omega), hstash, hnumber, Option.bind_eq_bind,
    Option.bind_some]
  simp [Ctx.delProp, Ctx.requireObject, Ctx.popN, Ctx.withProp, Value.isObject, Value.key]

/-- The callbacks object has got the function, and all that was pushed is popped again. -/
theorem create_eq (above : List Value) (h : Own c) {callee : Value}
    (hframe : c.frame = above ++ [callee]) (hroom : c.frame.length + 4 ≤ c.space)
    (hcallee : callee.isFunction = true) :
    eventloopCallbackCreateFromContext 0 c =
      some ({ c with sequenceId := (c.sequenceId + 1) % 2 ^ 64 }.withProp .callbacks
        (.numeric (uint64ToDouble c.sequenceId)) (some callee)) := by
  have hbottom : ValueStack.get? c.frame 0 = some callee := by
    rw [hframe]
    exact ValueStack.get?_bottom callee above
  have hbelow : ∀ pushed : List Value,
      ValueStack.get? (pushed ++ c.frame) 0 = some callee := by
    intro pushed
    rw [hframe, ← List.append_assoc]
    exact ValueStack.get?_bottom callee _
  let next : Ctx := { c with sequenceId := (c.sequenceId + 1) % 2 ^ 64 }
  have hpush := push_eq (c := next) .stash (by simp only [next]; omega)
  have hstash := getPropString_stash (c := { next with frame := .stash :: c.frame })
    (h.congr rfl rfl) rfl (by simp [next]; omega)
  have hnumber := push_eq (c := { next with frame := .callbacks :: .stash :: c.frame })
    (.number (uint64ToDouble c.sequenceId)) (by simp [next]; omega)
  have hdup : ({ next with frame := .number (uint64ToDouble c.sequenceId) :: .callbacks ::
      .stash :: c.frame } : Ctx).dup 0 =
      some { next with frame := callee :: .number (uint64ToDouble c.sequenceId) :: .callbacks ::
        .stash :: c.frame } := by
    have := hbelow [.number (uint64ToDouble c.sequenceId), .callbacks, .stash]
    simp only [List.cons_append, List.nil_append] at this
    simp only [Ctx.dup, this, Option.bind_eq_bind, Option.bind_some]
    exact push_eq callee (by simp [next]; omega)
  unfold eventloopCallbackCreateFromContext Ctx.requireFunction
  simp only [hbottom, hcallee, if_true, Option.bind_eq_bind, Option.bind_some]
  simp only [next] at hpush hstash hnumber hdup
  simp only [hpush, hstash, hnumber, hdup, Option.bind_some]
  simp [Ctx.putProp, Ctx.requireObject, Ctx.popN, Ctx.withProp, Value.isObject, Value.key]

theorem inFrame_eq (body : Ctx → Option Ctx) {args : List Value} {after : Ctx}
    (h : body (c.enter args) = some after) :
    inFrame args body c = some { after with frame := c.frame, space := c.space } := by
  unfold inFrame
  rw [h]
  rfl

/-- Whatever JavaScript does, the stack of the context and the objects are kept. -/
theorem runAction_eq (h : Own c) {a : JsAction} (ha : a.Allowed) :
    ∃ t, runAction c a = some t ∧ Restored c t ∧ Own t := by
  cases a with
  | setTimer callee isUint =>
    by_cases hthrows : isUint = false ∨ callee.isFunction = false
    · exact ⟨c, if_pos hthrows, ⟨rfl, rfl⟩, h⟩
    · obtain ⟨_, hcallee⟩ := not_or.mp hthrows
      rw [Bool.not_eq_false] at hcallee
      have hentered : Own (c.enter [.number 0, callee]) := h.congr rfl rfl
      have hcreate := create_eq [.number 0] hentered rfl (by simp [Ctx.enter, apiEntryStack])
        hcallee
      refine ⟨_, (if_neg hthrows).trans (inFrame_eq _ hcreate), ⟨rfl, rfl⟩, ?_⟩
      refine (hentered.withCallback c.sequenceId (some callee) ?_).congr rfl rfl
      rintro v hv
      cases hv
      exact hcallee
  | clearTimer id =>
    have hentered : Own (c.enter [.other 0]) := h.congr rfl rfl
    have hdestroy := destroy_eq hentered (by simp [Ctx.enter, apiEntryStack]) id
    refine ⟨_, inFrame_eq _ hdestroy, ⟨rfl, rfl⟩, ?_⟩
    exact (hentered.withCallback id none (by simp)).congr rfl rfl
  | define obj key value => exact ⟨_, rfl, ⟨rfl, rfl⟩, h.define ha⟩
  | setPrototype obj parent => exact ⟨_, rfl, ⟨rfl, rfl⟩, h.setPrototype ha⟩

theorem runActions_eq {actions : List JsAction} (hactions : Harmless c actions) (h : Kept c) :
    ∃ t, runActions c actions = some t ∧ Restored c t ∧ Kept t := by
  induction actions generalizing c with
  | nil => exact ⟨c, rfl, ⟨rfl, rfl⟩, h⟩
  | cons a actions ih =>
    obtain ⟨hallowed, hnext⟩ := hactions
    obtain ⟨t, ht, hrestored, hown⟩ := runAction_eq h.toOwn hallowed
    obtain ⟨hinherits, hlater⟩ := hnext t ht
    obtain ⟨u, hu, hlast, hkept⟩ := ih hlater ⟨hown, hinherits⟩
    refine ⟨u, ?_, ⟨hlast.frame.trans hrestored.frame, hlast.space.trans hrestored.space⟩, hkept⟩
    unfold runActions at hu ⊢
    rw [List.foldlM_cons, ht]
    exact hu

theorem foldlM_push (values : List Value) {c : Ctx}
    (hroom : c.frame.length + values.length ≤ c.space) :
    values.foldlM (fun c v => c.push v) c =
      some { c with frame := values.reverse ++ c.frame } := by
  induction values generalizing c with
  | nil => rfl
  | cons v values ih =>
    rw [List.length_cons] at hroom
    rw [List.foldlM_cons, push_eq v (by omega)]
    simp only [Option.bind_eq_bind, Option.bind_some]
    rw [ih (by simp only [List.length_cons]; omega), List.reverse_cons, List.append_assoc]
    rfl

/-- The callee gets the values above it, and one value is left in their place. -/
theorem pcall_eq {func : Value} {values : List Value} {callback : Callback} (h : Kept c)
    (hframe : c.frame = values.reverse ++ func :: rest) (hroom : rest.length < c.space)
    (hharmless : Harmless (c.enter []) callback.actions) :
    ∃ returned t, c.pcall values.length callback = some ((func, values), returned, t) ∧
      t.frame = callback.result :: rest ∧ t.space = c.space ∧ Kept t := by
  obtain ⟨t, ht, _, hkept⟩ := runActions_eq hharmless (h.congr rfl rfl)
  have hbody := inFrame_eq (fun c => runActions c callback.actions) ht
  have hfunc : ValueStack.get? c.frame (-(values.length + 1 : Nat)) = some func := by
    rw [hframe, ← List.length_reverse]
    exact ValueStack.get?_below func rest values.reverse
  have hpop : c.popN (values.length + 1) = some { c with frame := rest } := by
    have hdrop : (values.reverse ++ func :: rest).drop (values.length + 1) = rest := by
      rw [← List.length_reverse, List.drop_append, List.drop_of_length_le (by omega)]
      simp
    unfold Ctx.popN ValueStack.popN
    rw [hframe, if_pos (by simp), hdrop]
    rfl
  have htake : (c.frame.take values.length).reverse = values := by
    rw [hframe, ← List.length_reverse, List.take_left, List.reverse_reverse]
  have hpush := push_eq (c := { t with frame := rest, space := c.space }) callback.result hroom
  refine ⟨!callback.throws, { t with frame := callback.result :: rest, space := c.space }, ?_, rfl,
    rfl, hkept.congr rfl rfl⟩
  unfold Ctx.pcall
  simp only [hpop, hfunc, hbody, hpush, htake, Option.bind_eq_bind, Option.bind_some]

theorem complete_eq (h : Kept c) (hroom : c.frame.length + 3 ≤ c.space)
    (completion : Option Completion) :
    ∃ t, complete completion c = some t ∧ Restored c t ∧ Kept t := by
  cases completion with
  | none => exact ⟨c, rfl, ⟨rfl, rfl⟩, h⟩
  | some o =>
    unfold complete timerCallbackCompletion timerCleanup
    simp only
    split
    · exact ⟨c, rfl, ⟨rfl, rfl⟩, h⟩
    · split
      · split
        · exact ⟨_, destroy_eq h.toOwn hroom o.id, ⟨rfl, rfl⟩, h.withoutCallback o.id⟩
        · exact ⟨c, rfl, ⟨rfl, rfl⟩, h⟩
      · exact ⟨c, rfl, ⟨rfl, rfl⟩, h⟩

theorem callFound_eq {func : Value} (h : Kept c) (hframe : c.frame = func :: rest)
    (hfunc : func.isFunction = true) (e : Event)
    (hroom : c.frame.length + (e.argHandler.getD []).length ≤ c.space)
    (hharmless : Harmless (c.enter []) e.callback.actions) :
    ∃ t, callFound e c = some ((func, e.argHandler.getD []), t) ∧
      t.frame = e.callback.result :: rest ∧ t.space = c.space ∧ Kept t := by
  have hrequire : c.requireFunction (-1) = some () := by
    simp [Ctx.requireFunction, hframe, hfunc]
  have hnargs : ({ c with frame := (e.argHandler.getD []).reverse ++ c.frame } : Ctx).getTop -
      c.getTop = (e.argHandler.getD []).length := by
    simp [Ctx.getTop]
  have hrest : rest.length < c.space := by
    rw [hframe, List.length_cons] at hroom
    omega
  obtain ⟨returned, t, hcall, hlast, hspace, hkept⟩ := pcall_eq
    (c := { c with frame := (e.argHandler.getD []).reverse ++ c.frame }) (h.congr rfl rfl)
    (by rw [hframe]) hrest hharmless
  refine ⟨t, ?_, hlast, hspace, hkept⟩
  unfold callFound
  simp only [hrequire, foldlM_push _ hroom, hnargs, hcall, Option.bind_eq_bind, Option.bind_some]

/-- The lookup of the loop finds the function of the id or pushes `undefined`. -/
theorem getProp_callbacks (h : Kept c) (hframe : c.frame = .callbacks :: rest)
    (hroom : c.frame.length < c.space) (n : Nat) :
    ({ c with frame := .number n :: c.frame } : Ctx).getProp (-2) =
      some ((c.props .callbacks (.numeric n)).isSome,
        { c with frame := (c.props .callbacks (.numeric n)).getD .undefined :: c.frame }) := by
  have hobject : ({ c with frame := .number n :: c.frame } : Ctx).requireObject (-2) =
      some .callbacks := by
    simp [Ctx.requireObject, hframe, Value.isObject]
  have hkey : ValueStack.get? (.number n :: c.frame) (-1) = some (.number n) :=
    ValueStack.get?_top _ _
  have hbelow : ({ c with frame := .number n :: c.frame } : Ctx).popN 1 = some c := by
    simp [Ctx.popN]
  have hlookup : ({ c with frame := .number n :: c.frame } : Ctx).lookup .callbacks (.numeric n) =
      some (c.props .callbacks (.numeric n)) :=
    (h.congr rfl rfl : Kept { c with frame := .number n :: c.frame }).lookup n
  unfold Ctx.getProp
  simp only [hobject, hkey, hbelow, Value.key, hlookup, Option.bind_eq_bind, Option.bind_some]
  cases c.props .callbacks (.numeric n) with
  | none => simp [push_eq .undefined hroom]
  | some v => simp [push_eq v hroom]

end Calls

/-! ## Rounds -/

/-- The stack between two rounds. -/
structure AtLoop (c : Ctx) : Prop where
  frame : c.frame = [.callbacks, .stash, .other 1, .other 0]
  space : c.space = apiEntryStack
  kept : Kept c

section Rounds
variable {c : Ctx}

/-- The id is looked up in the object on top, and the value that it has come to is popped. -/
theorem executeCallback_eq (h : AtLoop c) {e : Event} (permitted : Permitted c e) :
    ∃ t, executeCallback e c = some ((c.props .callbacks (.numeric (uint64ToDouble e.id))).map
        fun func => (func, e.argHandler.getD []), t) ∧ Restored c t ∧ Kept t := by
  have hroom : c.frame.length < c.space := by simp [h.frame, h.space, apiEntryStack]
  have hlookup := getProp_callbacks h.kept h.frame hroom (uint64ToDouble e.id)
  unfold executeCallback
  simp only [push_eq _ hroom, hlookup, Option.bind_eq_bind, Option.bind_some]
  cases hfunc : c.props .callbacks (.numeric (uint64ToDouble e.id)) with
  | none =>
    refine ⟨c, ?_, ⟨rfl, rfl⟩, h.kept⟩
    simp [Ctx.popN]
  | some func =>
    have hargs : (func :: c.frame).length + (e.argHandler.getD []).length ≤ c.space := by
      have := permitted.1
      simp only [h.frame, h.space, List.length_cons, List.length_nil]
      unfold argumentLimit at this
      unfold apiEntryStack at this ⊢
      omega
    obtain ⟨t, hcall, hlast, hspace, hkept⟩ := callFound_eq
      (c := { c with frame := func :: c.frame }) (h.kept.congr rfl rfl) rfl
      (h.kept.functions _ func hfunc) e hargs permitted.2
    refine ⟨{ t with frame := c.frame }, ?_, ⟨rfl, hspace⟩, hkept.congr rfl rfl⟩
    have hpop : t.popN 1 = some { t with frame := c.frame } := by
      simp [Ctx.popN, hlast]
    simp [hcall, hpop]

/-- One round leaves the stack as it was, and the objects as the loop needs them. -/
theorem iteration_balanced (h : AtLoop c) {e : Event} (permitted : Permitted c e) :
    ∃ t o, iteration c e = some (t, o) ∧ Balanced c e t o ∧ AtLoop t := by
  have hroom : c.frame.length < c.space := by simp [h.frame, h.space, apiEntryStack]
  have hobject : ({ c with frame := .number (uint64ToDouble e.id) :: c.frame } :
      Ctx).requireObject (-2) = some .callbacks := by
    simp [Ctx.requireObject, h.frame, Value.isObject]
  obtain ⟨t, hexecute, hrestored, hkept⟩ := executeCallback_eq h permitted
  obtain ⟨u, hcomplete, hlast, hkept⟩ := complete_eq hkept
    (by simp [hrestored.frame, hrestored.space, h.frame, h.space, apiEntryStack]) e.completion
  have hframes : u.frame = c.frame := hlast.frame.trans hrestored.frame
  refine ⟨u, ⟨.callbacks, (c.props .callbacks (.numeric (uint64ToDouble e.id))).map
    fun func => (func, e.argHandler.getD [])⟩, ?_, ⟨hframes, ?_, rfl, rfl⟩,
    hframes.trans h.frame, (hlast.space.trans hrestored.space).trans h.space, hkept⟩
  · unfold iteration
    simp only [push_eq _ hroom, hobject, hexecute, hcomplete, Option.bind_eq_bind,
      Option.bind_some]
  · rw [hframes, h.frame]
    rfl

end Rounds

/-! ## Runs -/

theorem putNatives_eq (names : List String) {c : Ctx} (h : Kept c)
    (hroom : c.frame.length < c.space) :
    ∃ t, names.foldlM (fun c name => do (← c.push (.function 0)).putGlobalString name) c = some t ∧
      Restored c t ∧ Kept t := by
  induction names generalizing c with
  | nil => exact ⟨c, rfl, ⟨rfl, rfl⟩, h⟩
  | cons name names ih =>
    have hput : ({ c with frame := .function 0 :: c.frame } : Ctx).putGlobalString name =
        some (c.withProp (.other 0) (.named name) (some (.function 0))) := by
      simp [Ctx.putGlobalString, Ctx.popN, Ctx.withProp]
    have hinherits : (c.withProp (.other 0) (.named name) (some (.function 0))).InheritsNone := by
      intro n
      refine search_none ?_ ?_ (h.inherited n)
      · rfl
      · intro obj hp
        rw [props_withProp, if_neg (by simp)]
        exact hp
    have hkept : Kept (c.withProp (.other 0) (.named name) (some (.function 0))) :=
      ⟨h.toOwn.define ⟨by simp, by simp⟩, hinherits⟩
    obtain ⟨t, ht, hrestored, hlast⟩ := ih hkept hroom
    refine ⟨t, ?_, ⟨hrestored.frame, hrestored.space⟩, hlast⟩
    rw [List.foldlM_cons, push_eq (.function 0) hroom]
    simp only [Option.bind_eq_bind, Option.bind_some, hput]
    exact ht

/-- The heap once the stash has the callbacks object. -/
def created : Ctx :=
  createHeap.withProp .stash (.named callbacksObjectName) (some .callbacks)

theorem created_kept : Kept created := by
  refine ⟨⟨rfl, ?_, rfl⟩, ?_⟩
  · intro n v hv
    simp [created, createHeap, Ctx.withProp] at hv
  · intro n
    rfl

theorem setup_eq : ∃ g, setup = some g ∧ g.frame = [.other 1, .other 0] ∧
    g.space = apiEntryStack ∧ Kept g := by
  obtain ⟨g, hg, hrestored, hkept⟩ := putNatives_eq natives
    (c := { created with frame := [.other 1, .other 0] }) (created_kept.congr rfl rfl)
    (by simp [created, createHeap, Ctx.withProp, apiEntryStack])
  exact ⟨g, hg, hrestored.frame, hrestored.space, hkept⟩

/-- The loop starts with the callbacks object on top. -/
theorem eventloop_eq {program : List JsAction} (result : Value)
    (hprogram : ∀ g ∈ setup, Harmless (g.enter []) program) :
    ∃ c, eventloop program result = some c ∧ AtLoop c := by
  obtain ⟨g, hsetup, hframe, hspace, hkept⟩ := setup_eq
  obtain ⟨after, hafter, _, hkept⟩ := runActions_eq (hprogram g hsetup) (hkept.congr rfl rfl)
  have hbody := inFrame_eq (fun c => runActions c program) hafter
  let back : Ctx := { after with frame := g.frame, space := g.space }
  have hroom : back.frame.length + 2 ≤ back.space := by
    simp [back, hframe, hspace, apiEntryStack]
  have hresult := push_eq (c := back) result (by omega)
  have hstash := push_eq (c := back) .stash (by omega)
  have hlast := getPropString_stash (c := { back with frame := .stash :: back.frame })
    (hkept.toOwn.congr rfl rfl) rfl (by simp; omega)
  refine ⟨{ back with frame := .callbacks :: .stash :: back.frame }, ?_, ?_, hspace,
    hkept.congr rfl rfl⟩
  · unfold eventloop
    simp only [back] at hresult hstash hlast
    simp only [hsetup, hbody, hresult, Option.bind_eq_bind, Option.bind_some, Ctx.popN,
      ValueStack.popN_one]
    simp only [hstash, Option.bind_some]
    exact hlast
  · simp [back, hframe]

theorem run_balanced {events : List Event} {c : Ctx} (h : AtLoop c)
    (hevents : Runs.Along Permitted iteration c events) :
    ∃ s outputs, Runs.run iteration c events = some (s, outputs) ∧ AtLoop s := by
  induction events generalizing c with
  | nil => exact ⟨c, [], rfl, h⟩
  | cons e events ih =>
    obtain ⟨permitted, hlater⟩ := hevents
    obtain ⟨t, o, hstep, _, hnext⟩ := iteration_balanced h permitted
    obtain ⟨s, outputs, hrun, hlast⟩ := ih hnext (hlater t o hstep)
    exact ⟨s, o :: outputs, Runs.run_cons_iff.mpr ⟨t, o, outputs, hstep, hrun, rfl⟩, hlast⟩

/-- However many events have been handled, the next round leaves the value stack as it was, with the
callbacks object on top, and no call of it throws. -/
theorem value_stack_balanced (program : List JsAction) (result : Value) (events : List Event)
    (hprogram : ∀ g ∈ setup, Harmless (g.enter []) program)
    (hevents : ∀ c ∈ eventloop program result, Runs.Along Permitted iteration c events) :
    ∃ c s outputs, eventloop program result = some c ∧
      Runs.run iteration c events = some (s, outputs) ∧ s.frame = c.frame ∧
      ∀ e, Permitted s e → ∃ t o, iteration s e = some (t, o) ∧ Balanced s e t o := by
  obtain ⟨c, hstart, hloop⟩ := eventloop_eq result hprogram
  obtain ⟨s, outputs, hrun, hlast⟩ := run_balanced hloop (hevents c hstart)
  refine ⟨c, s, outputs, hstart, hrun, hlast.frame.trans hloop.frame.symm, ?_⟩
  intro e permitted
  obtain ⟨t, o, hstep, hbalanced, _⟩ := iteration_balanced hlast permitted
  exact ⟨t, o, hstep, hbalanced⟩

/-- A timer that fires twice, throwing once: its handler has deleted the id before the second event,
whose lookup comes to `undefined`. -/
def timeouts : List Event :=
  [⟨0, some [.number 1, .text "a"], ⟨[], true, .other 5⟩, some ⟨true, false, true, 0⟩⟩,
    ⟨0, none, ⟨[], false, .undefined⟩, some ⟨true, true, true, 0⟩⟩]

/-- A timer is set while `Object.prototype` has no prototype: it still has no numeric property. -/
theorem setTimer_inheritsNone {c t : Ctx} (h : Kept c)
    (hroot : c.prototype .objectPrototype = none) {callee : Value}
    (hcallee : callee.isFunction = true) (ht : runAction c (.setTimer callee true) = some t) :
    t.InheritsNone := by
  have hcreate := create_eq (c := c.enter [.number 0, callee]) [.number 0] (h.toOwn.congr rfl rfl)
    rfl (by simp [Ctx.enter, apiEntryStack]) hcallee
  have hrun : runAction c (.setTimer callee true) = _ :=
    (if_neg (by simp [hcallee])).trans (inFrame_eq _ hcreate)
  rw [hrun] at ht
  cases ht
  have next : prototypeChainSanity - 1 = prototypeChainSanity - 2 + 1 := rfl
  intro n
  have hfound := h.inherited n
  rw [next, search_succ] at hfound ⊢
  have hprops : c.props .objectPrototype (.numeric n) = none := by
    cases hp : c.props .objectPrototype (.numeric n) with
    | none => rfl
    | some v => simp [hp] at hfound
  simp [Ctx.withProp, Ctx.enter, hprops, hroot]

theorem timeouts_balanced :
    ∃ c s outputs, eventloop [.setTimer (.function 7) true] .undefined = some c ∧
      Runs.run iteration c timeouts = some (s, outputs) ∧ s.frame = c.frame ∧
      ∀ e, Permitted s e → ∃ t o, iteration s e = some (t, o) ∧ Balanced s e t o := by
  apply value_stack_balanced
  · intro g hg
    obtain ⟨g', hg', _, _, hkept⟩ := setup_eq
    rw [hg'] at hg
    cases hg
    have hroot : setup.map (fun g => g.prototype .objectPrototype) = some none := by decide
    rw [hg', Option.map_some, Option.some.injEq] at hroot
    refine ⟨trivial, fun t ht => ⟨?_, trivial⟩⟩
    exact setTimer_inheritsNone (c := g.enter []) (hkept.congr rfl rfl) hroot rfl ht
  · intro c hc
    refine ⟨⟨by simp [argumentLimit, apiEntryStack], trivial⟩, ?_⟩
    intro t o ht
    refine ⟨⟨by simp [argumentLimit], trivial⟩, ?_⟩
    intro u o hu
    trivial

/-- The event of the first callback; `argHandler` is for one that pushes. -/
def firstEvent (argHandler : Option (List Value)) : Event :=
  ⟨0, argHandler, ⟨[], false, .undefined⟩, none⟩

/-- A bare object with a property 0 becomes the prototype of `Object.prototype`. -/
def inheritNumber : List JsAction :=
  [.setPrototype (.other 5) none, .define (.other 5) (.numeric 0) (some (.number 1)),
    .setPrototype .objectPrototype (some (.other 5))]

theorem rounds_that_fail :
    (∃ c, eventloop [.setTimer (.function 7) true] .undefined = some c ∧
      iteration c (firstEvent (some (List.replicate 100 .undefined))) = none) ∧
    ∃ c, eventloop inheritNumber .undefined = some c ∧ iteration c (firstEvent none) = none := by
  have overfull : (eventloop [.setTimer (.function 7) true] .undefined).map (fun c =>
      (iteration c (firstEvent (some (List.replicate 100 .undefined)))).isNone) = some true := by
    decide +kernel
  have inherited : (eventloop inheritNumber .undefined).map (fun c =>
      (iteration c (firstEvent none)).isNone) = some true := by
    decide +kernel
  obtain ⟨c, hc, hnone⟩ := Option.map_eq_some_iff.mp overfull
  obtain ⟨d, hd, hthrows⟩ := Option.map_eq_some_iff.mp inherited
  exact ⟨⟨c, hc, Option.isNone_iff_eq_none.mp hnone⟩, d, hd, Option.isNone_iff_eq_none.mp hthrows⟩

end JsEmbeddedPlatform.LoopStack
