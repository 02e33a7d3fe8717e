import LexScript.Frames
import LexScript.Text.Quoted

/-!
# Values

Functions, classes and instances are values by reference: a value holds an index into the
heap, and two such values are equal only if they are the same reference. The heap keeps what
was created in the order of creation and never takes anything away.

A function remembers the frame in which it was declared. A class finds a method in its own
table or else in its superclass, which was created earlier. Binding a method to an instance
puts a frame with `this` between the frame of the method and the frames of its calls.

## Main definitions

* `Value`, `Closure`, `ClassRecord`, `InstanceRecord`, `Heap`.
* `Heap.findMethod?` : the nearest method on the chain of superclasses.
* `Heap.bindMethod` : a method with `this`.
* `Value.equals`, `Value.text` : how programs compare and show values.
-/

namespace LexScript

/-- The functions that programs find in the globals. -/
inductive Native where
  | clock
deriving DecidableEq

/-- A value of a running program. -/
inductive Value where
  | nil
  | boolean (b : Bool)
  | number (x : Number)
  | string (s : String)
  | native (f : Native)
  | functionRef (index : Nat)
  | classRef (index : Nat)
  | instanceRef (index : Nat)
deriving DecidableEq, Inhabited

/-- The code of a function and the frame around it. -/
structure Closure where
  /-- A function without a name has none. -/
  name : Option String
  params : List Ident
  body : List Stmt
  frame : Nat
  /-- A call of an initializer yields the instance it is bound to. -/
  isInitializer : Bool

/-- A class with its own methods. -/
structure ClassRecord where
  name : String
  superclass : Option Nat
  methods : Bindings String Closure

/-- An instance with its fields. -/
structure InstanceRecord where
  classIndex : Nat
  fields : Bindings String Value

/-- All that a session has created. -/
structure Heap where
  frames : Frames Value
  functions : Array Closure
  classes : Array ClassRecord
  instances : Array InstanceRecord

/-- The value of a constant. -/
def Literal.value : Literal → Value
  | number x => .number x
  | string s => .string s
  | boolean b => .boolean b
  | nil => .nil

namespace Native

/-- The name of a native function. -/
def name : Native → String
  | clock => "clock"

/-- The number of arguments of a native function. -/
def arity : Native → Nat
  | clock => 0

end Native

namespace Closure

/-- The number of parameters. -/
def arity (c : Closure) : Nat := c.params.length

/-- How a function is shown. -/
def text (c : Closure) : String :=
  match c.name with
  | some name => "<fn " ++ name ++ ">"
  | none => "<lambda>"

end Closure

namespace Heap

/-- Only the globals, which hold the native functions. -/
def initial : Heap where
  frames := Frames.initial.define Frames.globals (.ident Native.clock.name) (.native .clock)
  functions := #[]
  classes := #[]
  instances := #[]

/-! ## Frames -/

/-- Adds an empty frame and yields its index. -/
def newFrame (h : Heap) (enclosing : Nat) : Nat × Heap :=
  (h.frames.size, { h with frames := h.frames.push (some enclosing) })

/-- Binds a name in a frame. -/
def define (h : Heap) (f : Nat) (x : Name) (v : Value) : Heap :=
  { h with frames := h.frames.define f x v }

/-! ## Functions -/

/-- Adds a function and yields a reference to it. -/
def newFunction (h : Heap) (c : Closure) : Value × Heap :=
  (.functionRef h.functions.size, { h with functions := h.functions.push c })

/-! ## Classes -/

/-- Adds a class and yields a reference to it. -/
def newClass (h : Heap) (c : ClassRecord) : Value × Heap :=
  (.classRef h.classes.size, { h with classes := h.classes.push c })

/-- The method of a class or else of the nearest superclass that has it. -/
def findMethod? (h : Heap) (c : Nat) (method : String) : Option Closure :=
  match h.classes[c]? with
  | none => none
  | some record =>
    match record.methods.find? method with
    | some found => some found
    | none =>
      match record.superclass with
      | some s => if s < c then findMethod? h s method else none
      | none => none
termination_by c

/-- The initializer of a class, its own or inherited. -/
def initializer? (h : Heap) (c : Nat) : Option Closure := h.findMethod? c "init"

/-- The number of arguments of a class: those of its initializer. -/
def classArity (h : Heap) (c : Nat) : Nat := ((h.initializer? c).map Closure.arity).getD 0

/-! ## Instances -/

/-- Adds an instance without fields and yields its index. -/
def newInstance (h : Heap) (c : Nat) : Nat × Heap :=
  (h.instances.size, { h with instances := h.instances.push ⟨c, .empty⟩ })

/-- The field of an instance. -/
def field? (h : Heap) (i : Nat) (name : String) : Option Value :=
  h.instances[i]?.bind (·.fields.find? name)

/-- Sets a field of an instance, whether or not it had one of this name. -/
def setField (h : Heap) (i : Nat) (name : String) (v : Value) : Heap :=
  { h with
    instances :=
      h.instances.modify i fun record ↦ { record with fields := record.fields.put name v } }

/-- The class of an instance. -/
def classOf? (h : Heap) (i : Nat) : Option Nat := h.instances[i]?.map InstanceRecord.classIndex

/-- A method whose calls see an instance as `this`. -/
def bindMethod (h : Heap) (method : Closure) (i : Nat) : Closure × Heap :=
  let (f, h) := h.newFrame method.frame
  ({ method with frame := f }, h.define f .this (.instanceRef i))

end Heap

namespace Value

/-- Whether a value counts as true in a condition: all do but two. -/
def isTruthy : Value → Bool
  | nil => false
  | boolean b => b
  | _ => true

/-- Equality as programs see it: never across kinds, by reference for what the heap holds. -/
def equals : Value → Value → Bool
  | number x, number y => x.equals y
  | v, w => v == w

/-- The text that a program writes for a value. -/
def text (h : Heap) : Value → String
  | nil => "nil"
  | boolean true => "true"
  | boolean false => "false"
  | number x => x.valueText
  | string s => s
  | native f => "<native fn " ++ f.name ++ ">"
  | functionRef i => (h.functions[i]?.map Closure.text).getD ""
  | classRef c => (h.classes[c]?.map ClassRecord.name).getD ""
  | instanceRef i =>
    (((h.classOf? i).bind (h.classes[·]?)).map ClassRecord.name).getD "" ++ " instance"

/-- The text of a value in messages, where strings are quoted. -/
def quotedText (h : Heap) : Value → String
  | string s => Text.quote s
  | v => v.text h

/-- The number of arguments that a call of the value takes, if it can be called. -/
def arity? (h : Heap) : Value → Option Nat
  | native f => some f.arity
  | functionRef i => h.functions[i]?.map Closure.arity
  | classRef c => some (h.classArity c)
  | _ => none

end Value

end LexScript
