import PropertyTables.Heap
import PropertyTables.Hierarchy.Dispatch

/-! # Running members

* `World`: a registry and a heap; `Running` is what happens in a world. What was changed before a
  fault stays changed.
* `Method.invoke`: runs the body that dispatch finds, or the method's own.
* `Accessor`: a way to read or write a property; `Accessor.invoke` runs it. An `Invoker` knows the
  type of the values, too.
* `Constructor.construct`: allocates an object and runs the constructor's body on it.
-/

namespace PropertyTables
set_option autoImplicit false

/-- What running members may look at and change. -/
structure World where
  registry : Registry
  heap : Heap

/-- A computation in a world. -/
abbrev Running := ExceptT Fault (StateM World)

namespace Running

/-- A computation that only lets the registry grow. -/
def growing {α : Type} (x : Growing α) : Running α :=
  ExceptT.mk fun w =>
    let (result, registry) := x.run.run w.registry
    (result, { w with registry := registry })

/-- An answer that the heap gives as it is. -/
def peek {α : Type} (query : Heap → Except Fault α) : Running α :=
  ExceptT.mk fun w => (query w.heap, w)

/-- A change of the heap; a fault leaves it as it was. -/
def update (change : Heap → Except Fault Heap) : Running Unit :=
  ExceptT.mk fun w =>
    match change w.heap with
    | .ok heap => (.ok (), { w with heap := heap })
    | .error fault => (.error fault, w)

end Running

/-! ## Methods -/

/-- Runs a body on an object. -/
def MethodBody.run (target : ObjectId) (args : List Value) : MethodBody → Running Value
  | constant v => return v
  | readSlot declaring name => Running.peek fun h => (h.object target).get (declaring, name)
  | writeSlot declaring name => do
    Running.update (·.setSlot target (declaring, name) (args.head?.getD .null))
    return .null
  | arguments => return .array args
  | targetType => Running.peek fun h => .ok (.text (h.object target).type.text)
  | raise message => throw (.invocation (.raised message))

/-- The method whose body stands for this one on an object of the given type. Static and private
methods are not dispatched. -/
def Method.implementation (m : Method) (receiver : TypeId) : Growing (Option Method) :=
  if m.modifiers.isStatic || m.modifiers.isPrivate then return none
  else findImplementation receiver m

/-- Calls a method on an object with as many arguments as it has parameters. -/
def Method.invoke (m : Method) (target : ObjectId) (args : List Value) : Running Value := do
  if args.length ≠ m.params.length then
    throw (.invocation (.argumentCount m.name m.params.length args.length))
  let receiver := ((← get).heap.object target).type
  let found ← Running.growing (m.implementation receiver)
  match (found.bind (·.body)).or m.body with
  | some body => body.run target args
  | none => throw (.invocation (.noImplementation m.name receiver))

/-! ## Accessors -/

/-- A way to read or write a property. -/
inductive Accessor
  | method (m : Method)
  | readField (f : Field)
  | writeField (f : Field)

/-- Runs an accessor on an object. Reading a field takes no notice of the arguments; writing one
takes exactly one value and returns null. -/
def Accessor.invoke (target : ObjectId) (args : List Value) : Accessor → Running Value
  | method m => m.invoke target args
  | readField f => Running.peek (·.readField target f)
  | writeField f =>
    match args with
    | [value] => do
      Running.update (·.writeField target f value)
      return .null
    | _ => throw (.invocation (.valueCount f.name args.length))

/-- An accessor together with the type of the values that it reads or writes, as the owner of the
property sees it. -/
structure Invoker where
  accessor : Accessor
  valueType : TypeId

/-! ## Constructors -/

/-- Runs a constructor's body on a new object. -/
def ConstructorBody.run (o : Instance) : ConstructorBody → Except Fault Instance
  | assign slots => slots.foldlM (fun o s => o.set s.1 s.2) o
  | raise message => .error (.instantiation (.raised message))

/-- A new object of a class, after the constructor ran on it. -/
def Constructor.construct (c : Constructor) (type : TypeId) : Running ObjectId := do
  let allocated ← Running.growing (Growing.read (·.allocate type))
  let finished ← Running.peek fun _ => c.body.elim (.ok allocated) (·.run allocated)
  let w ← get
  let (id, heap) := w.heap.add finished
  set { w with heap := heap }
  return id

end PropertyTables
